import ChainPlanner.User

/-!
# ChainPlanner.Owner

Who may work on a task: a worker or every member of a group.  The text form names the kind before
a colon, and a text without a known kind names a worker (`parse`); what `text` writes reads back
(`parse_text`), also for ids that themselves begin with a kind.
-/

namespace ChainPlanner

/-- A worker or a group that may work on a task. -/
inductive OwnerRef where
  | user (id : UserId)
  | group (id : GroupId)
  deriving DecidableEq

namespace OwnerRef

/-- The characters of the text form. -/
def chars : OwnerRef → List Char
  | user id => 'u' :: 's' :: 'e' :: 'r' :: ':' :: id.name.toList
  | group id => 'g' :: 'r' :: 'o' :: 'u' :: 'p' :: ':' :: id.name.toList

/-- The kind and the id, parted by a colon. -/
def text (o : OwnerRef) : String := String.ofList o.chars

/-- The owner that a run of characters names. -/
def parseChars : List Char → OwnerRef
  | 'u' :: 's' :: 'e' :: 'r' :: ':' :: rest => user ⟨String.ofList rest⟩
  | 'g' :: 'r' :: 'o' :: 'u' :: 'p' :: ':' :: rest => group ⟨String.ofList rest⟩
  | cs => user ⟨String.ofList cs⟩

/-- The owner that a text names; without a kind it is a worker. -/
def parse (s : String) : OwnerRef := parseChars s.toList

/-- An owner is read back from its characters. -/
theorem parseChars_chars (o : OwnerRef) : parseChars o.chars = o := by
  cases o <;> simp [chars, parseChars]

/-- An owner is read back from its text. -/
theorem parse_text (o : OwnerRef) : parse o.text = o := by
  simp [parse, text, parseChars_chars]

/-- Whether a worker is meant, by name or as a member of the group. -/
def covers (u : User) : OwnerRef → Bool
  | user id => id = u.id
  | group id => id ∈ u.groups

end OwnerRef

end ChainPlanner
