import Pensar.Model.DbConnection

/-!
# Searching an audit log (`contact/data/audit_dao.hpp`)

`search` puts its statement together from the filters that are not empty.
-/

set_option autoImplicit false

namespace Pensar.Model.AuditDAO

/-- The filters of `search`.
SOURCE: contact/data/audit_dao.hpp:47-50 -/
structure Filters where
  action : S := []
  actionBy : S := []
  from_ : S := []
  to_ : S := []

/-- SOURCE: contact/data/audit_dao.hpp:55-59 -/
def whereClause (filters : Filters) : S :=
  W "WHERE 1=1" ++
    (if filters.action.isEmpty then [] else W " AND action = '" ++ filters.action ++ W "'") ++
    (if filters.actionBy.isEmpty then []
      else W " AND action_by = '" ++ filters.actionBy ++ W "'") ++
    (if filters.from_.isEmpty then []
      else W " AND action_at >= '" ++ filters.from_ ++ W "'::timestamptz") ++
    (if filters.to_.isEmpty then [] else W " AND action_at < '" ++ filters.to_ ++ W "'::timestamptz")

/-- The statement of `search`.
SOURCE: contact/data/audit_dao.hpp:61-65 -/
def searchSql (logTable : S) (filters : Filters) : S :=
  W "SELECT log_id, action, action_by, action_at::text, " ++
    W "COALESCE(old_data::text,'\x7b\x7d'), COALESCE(new_data::text,'\x7b\x7d') " ++
    W "FROM " ++ logTable ++ W " " ++ whereClause filters ++ W " ORDER BY action_at DESC"

end Pensar.Model.AuditDAO
