import ListQuery.Window

/-!
# Settings

What a query falls back on when its request says nothing.  Settings are taken as they are given and
checked only where they are used.
-/

namespace ListQuery

structure Config where
  defaultPage : Value := Window.defaultPage
  defaultLimit : Value := Window.defaultLimit
  maxLimit : Value := Window.maxLimit
  defaultSortField : Value := .str "createdAt"
  defaultSortOrder : Value := .str "desc"
  defaultCursorField : Value := .str "id"
  /-- queries above this many milliseconds are slow -/
  slowQueryThreshold : Value := .float (.ofRatio false 1000 1)
  /-- seconds for which a response may be served again -/
  cacheTtl : Value := .int 300
  exportMaxRows : Value := .int 10000
  deriving Inhabited

namespace Config

def toRecord (c : Config) : List (String × Value) :=
  [("default_page", c.defaultPage), ("default_limit", c.defaultLimit), ("max_limit", c.maxLimit),
    ("default_sort_field", c.defaultSortField), ("default_sort_order", c.defaultSortOrder),
    ("default_cursor_field", c.defaultCursorField),
    ("slow_query_threshold_ms", c.slowQueryThreshold), ("cache_ttl", c.cacheTtl),
    ("export_max_rows", c.exportMaxRows)]

def set (c : Config) (name : String) (v : Value) : Outcome Config :=
  match name with
  | "default_page" => return { c with defaultPage := v }
  | "default_limit" => return { c with defaultLimit := v }
  | "max_limit" => return { c with maxLimit := v }
  | "default_sort_field" => return { c with defaultSortField := v }
  | "default_sort_order" => return { c with defaultSortOrder := v }
  | "default_cursor_field" => return { c with defaultCursorField := v }
  | "slow_query_threshold_ms" => return { c with slowQueryThreshold := v }
  | "cache_ttl" => return { c with cacheTtl := v }
  | "export_max_rows" => return { c with exportMaxRows := v }
  | _ => throw .wrongKind

/-- the settings with these names changed; there are no others -/
def ofRecord (entries : List (String × Value)) : Outcome Config :=
  entries.foldlM (fun c entry => c.set entry.1 entry.2) {}

end Config

end ListQuery
