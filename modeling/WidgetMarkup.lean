import WidgetMarkup.Proofs.AttributeStore
import WidgetMarkup.Proofs.BlankCode
import WidgetMarkup.Proofs.CallArguments
import WidgetMarkup.Proofs.Composition
import WidgetMarkup.Proofs.Convergence
import WidgetMarkup.Proofs.DashRemoval
import WidgetMarkup.Proofs.ElementIds
import WidgetMarkup.Proofs.Equivalence
import WidgetMarkup.Proofs.Fallbacks
import WidgetMarkup.Proofs.IntegralNumbers
import WidgetMarkup.Proofs.Locations
import WidgetMarkup.Proofs.NameDisplay
import WidgetMarkup.Proofs.Namespaces
import WidgetMarkup.Proofs.Opacity
import WidgetMarkup.Proofs.Padding
import WidgetMarkup.Proofs.Readability
import WidgetMarkup.Proofs.ScannedFields
import WidgetMarkup.Proofs.Unwrapping
import WidgetMarkup.Proofs.VocabularyFiles
import WidgetMarkup.Proofs.Walking
import WidgetMarkup.Proofs.Wrapping
import WidgetMarkup.Proofs.WrittenDiagnostics
