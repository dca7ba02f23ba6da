import DesignTokens.Color.Form
import DesignTokens.Json.Reader
import DesignTokens.Proofs.Registry.Nearest
import DesignTokens.Proofs.InlineStyle.Comment
import DesignTokens.Proofs.InlineStyle.Declaration
import DesignTokens.Proofs.InlineStyle.Plain
import DesignTokens.Proofs.InlineStyle.Rendered
import DesignTokens.Proofs.InlineStyle.Splitting
import DesignTokens.Proofs.Registry.Account
import DesignTokens.Proofs.Registry.Identity
import DesignTokens.Proofs.Registry.Lifecycle
import DesignTokens.Proofs.Registry.Typography
import DesignTokens.Proofs.Replacement
import DesignTokens.Proofs.Stylesheet.Nesting
import DesignTokens.Proofs.Stylesheet.Quotes
import DesignTokens.Proofs.Text.Partition
import DesignTokens.Proofs.Token.Variable
import DesignTokens.Proofs.UtilityClass.Rendered
import DesignTokens.Source.Reading
import DesignTokens.Proofs.Text.Words
import DesignTokens.Proofs.Style.Length
import DesignTokens.Proofs.Token.ShadowLayer
import DesignTokens.Proofs.Style.Agreement
import DesignTokens.Proofs.Source.Laminar
import DesignTokens.Proofs.Source.Position
import DesignTokens.Proofs.UtilityClass.Types
import DesignTokens.Proofs.Finding.Patterns
import DesignTokens.Proofs.Registry.Search
import DesignTokens.Proofs.Color.Digits
import DesignTokens.Proofs.Color.Separators
import DesignTokens.Proofs.Finding.Duplicate
import DesignTokens.Proofs.Registry.Confidence
import DesignTokens.Proofs.Registry.Independence
import DesignTokens.Proofs.Registry.Export
