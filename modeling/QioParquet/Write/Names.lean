import QioParquet.Plan.Apply
import QioParquet.Write.Reopened
import QioParquet.Write.SchemaLaws
import Mathlib.Tactic

/-!
# Selecting the columns of a written file

`qio_resolve_write_schema` refuses names that R takes for the same. `qio_write_body`
stores them later: empty and missing names are completed to `V1`, `V2` and so on, and the
others are translated to UTF-8. A completed name may be the name of another column, and
two names that R tells apart may have one translation: then two leaves have one path, and
neither can be selected.
-/

namespace QioParquet
namespace Write

open Lib Read Plan Footer

section Stored

variable {ν : Type} {names : NameKind ν}

end Stored

section Selecting

end Selecting

section Written

variable {ν : Type} {names : NameKind ν}
variable {platform : Platform} {schema : Option (List (SchemaRow ν))}
variable {frame : List (FrameColumn ν)} {prepared : List (PreparedColumn ν)}
variable {fmt : Format} {t : Translator} {job : WriteJob}

end Written

end Write
end QioParquet
