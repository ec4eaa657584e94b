import Mathlib.Data.List.Basic

/-!
Resources that are acquired and released. What is held after a run of uses, as
long as nothing is released that is not held.
-/

namespace StudyWebServer.ResourcePairing

universe u
variable {Resource : Type u} [DecidableEq Resource]

inductive Use (Resource : Type u) where
  | acquire (resource : Resource)
  | release (resource : Resource)

def holding (held : List Resource) : List (Use Resource) → Option (List Resource)
  | [] => some held
  | .acquire resource :: rest => holding (resource :: held) rest
  | .release resource :: rest =>
      if resource ∈ held then holding (held.erase resource) rest else none

theorem holding_append (held : List Resource) (first second : List (Use Resource)) :
    holding held (first ++ second) = (holding held first).bind (holding · second) := by
  induction first generalizing held with
  | nil => rfl
  | cons use rest ih =>
      cases use with
      | acquire resource => exact ih (resource :: held)
      | release resource =>
          simp only [List.cons_append, holding]
          split_ifs
          · exact ih (held.erase resource)
          · rfl

end StudyWebServer.ResourcePairing
