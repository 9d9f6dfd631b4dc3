import CabalManifest.Defaults.Reference
import CabalManifest.World

/-!
# The store of downloaded defaults

Documents of repositories are kept on disk once they have been downloaded, each under its owner,
repository, revision and path. A revision is taken to be fixed, so that a stored document is never
downloaded again; a download that fails stores nothing.
-/

namespace CabalManifest.Store

/-- The directory of the store: the one that was asked for, else that of the environment, else one
in the home directory. -/
def directory (explicit : Option String) (world : World) : Except Failure PosixPath :=
  let chosen := explicit <|> world.setting? "CABALIZE_DEFAULTS_DIR"
  world.expandHome (PosixPath.ofString (chosen.getD "~/.cabalize/defaults"))

/-- The most characters that an address may have. -/
def addressLimit : Nat := 65536

/-- Whether a character is a control character of ASCII. -/
def isControl (c : Char) : Bool := c.toNat < 0x20 || c.toNat == 0x7F

/-- What is wrong with an address, if anything. -/
def addressFault? (url : String) : Option AddressFault :=
  if addressLimit < url.length then some .tooLong
  else
    let position := (url.toList.takeWhile fun c ↦ !isControl c).length
    (url.toList[position]?).map fun c ↦ .control c position

/-- The content of a document on the network. -/
def download (url : String) : Run ByteArray := do
  Run.say .debug ("Downloading defaults from " ++ url)
  let answer ← modifyGet (·.request url)
  if let some fault := addressFault? url then throw (.badAddress fault)
  match answer with
  | .unreachable cause => throw (.download url cause)
  | .response status content =>
    if status = 404 then throw (.missingDefaults url false)
    else if status < 200 || status ≥ 300 then
      throw (.download url ("HTTP " ++ toString status))
    else return content

/-- The content of a document, downloaded and stored if it is not in the store yet. -/
def fetch (store : PosixPath) (document : Repository) : Run ByteArray := do
  let target := document.location store
  if ← Run.reading (·.isFile target) then
    Run.reading (·.readBytes target)
  else
    let content ← download document.url
    Run.makeDirectories target.parent
    Run.changing (·.writeBytes target content)
    return content

end CabalManifest.Store
