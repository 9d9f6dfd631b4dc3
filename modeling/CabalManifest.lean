import CabalManifest.Main
import CabalManifest.Proofs.AcyclicDefaults
import CabalManifest.Proofs.CanonicalConstraints
import CabalManifest.Proofs.ConditionalStanzas
import CabalManifest.Proofs.ContainedLines
import CabalManifest.Proofs.ControlledFailures
import CabalManifest.Proofs.DependencyForms
import CabalManifest.Proofs.Descents
import CabalManifest.Proofs.EquivalentForms
import CabalManifest.Proofs.FormatFeatures
import CabalManifest.Proofs.HeaderOrder
import CabalManifest.Proofs.IgnoredKeys
import CabalManifest.Proofs.KeptAlignment
import CabalManifest.Proofs.KeptContent
import CabalManifest.Proofs.KnownDocuments
import CabalManifest.Proofs.LocatedReports
import CabalManifest.Proofs.ModuleFiles
import CabalManifest.Proofs.NothingLost
import CabalManifest.Proofs.OverriddenFields
import CabalManifest.Proofs.Precedence
import CabalManifest.Proofs.RearrangedConditionals
import CabalManifest.Proofs.ReloadedDocuments
import CabalManifest.Proofs.RemoteStore
import CabalManifest.Proofs.RepeatedBuilds
import CabalManifest.Proofs.SharedDiscovery
import CabalManifest.Proofs.StableDescription
import CabalManifest.Proofs.TextBlocks
import CabalManifest.Proofs.WrittenDescriptions
