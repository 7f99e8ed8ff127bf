import BoundedBytes.Error

namespace BoundedBytes

-- The text by which a record shows a value. Numbers are decimal; an absent
-- option, a present one and the two kinds of outcome are told apart by name.
class Render (α : Type) where
  render : α → String

export Render (render)

instance : Render Nat := ⟨Nat.repr⟩

instance : Render UInt8 := ⟨fun n => Nat.repr n.toNat⟩

instance : Render UInt16 := ⟨fun n => Nat.repr n.toNat⟩

instance : Render Bool := ⟨fun b => if b then "true" else "false"⟩

instance : Render Unit := ⟨fun _ => "()"⟩

instance : Render Error := ⟨Error.name⟩

instance [Render α] : Render (Option α) where
  render
    | none => "None"
    | some a => "Some(" ++ render a ++ ")"

instance [Render α] : Render (Outcome α) where
  render
    | .ok a => "Ok(" ++ render a ++ ")"
    | .error e => "Err(" ++ render e ++ ")"

instance [Render α] [Render β] : Render (α × β) where
  render pair := "(" ++ render pair.1 ++ ", " ++ render pair.2 ++ ")"

-- A record of named fields on one line, in the order given.
def renderFields (title : String) (fields : List (String × String)) : String :=
  title ++ " \x7b " ++ ", ".intercalate (fields.map fun field => field.1 ++ ": " ++ field.2) ++ " \x7d"

end BoundedBytes
