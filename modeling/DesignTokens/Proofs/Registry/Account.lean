import DesignTokens.Proofs.Registry.Session
import DesignTokens.Proofs.Stylesheet.Values
import DesignTokens.Proofs.Token.Account

/-!
# The account of a stylesheet

A registry takes up every stylesheet that it can read. From then on its tokens and
its remarks are an account of the variables of that stylesheet, whatever is asked
of it afterwards.
-/

namespace DesignTokens
namespace Registry

end Registry
end DesignTokens
