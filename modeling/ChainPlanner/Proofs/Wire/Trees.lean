import ChainPlanner.Json.Value
import ChainPlanner.Proofs.Wire.Words

/-!
# ChainPlanner.Proofs.Wire.Trees

The tree of a written text is found again.

Each tree is the only one with its words (`Tree.ofTokens?_tokens`).  The words of data without real
numbers are read from its text (`Value.tokensFrom?_toTree`), except that a string comes back with
the escapes by which it was written.  So the text of data is read as the tree `Value.reread`
(`Value.parse?_render`).
-/

namespace ChainPlanner.Json

/-! ## words and trees -/

namespace Tree

open State

variable {stack : List Frame} {rest : List Token}

/-- The first word of a tree opens a value, also where an array might end. -/
theorem foldlM_firstItem (t : Tree) :
    (t.tokens ++ rest).foldlM step (.firstItem stack) =
      (t.tokens ++ rest).foldlM step (.value (.array [] :: stack)) := by
  rcases t with _ | _ | _ | _ | (_ | ⟨t, ts⟩) | (_ | ⟨⟨k, t⟩, ms⟩) <;> rfl

mutual

/-- The words of a tree make a value. -/
theorem foldlM_tokens (t : Tree) (stack : List Frame) (rest : List Token) :
    (t.tokens ++ rest).foldlM step (.value stack) = rest.foldlM step (complete t stack) :=
  match t with
  | null | bool _ | number _ | string _ | array [] | object [] => rfl
  | array (t :: ts) => by
    have hfirst : ((array (t :: ts)).tokens ++ rest).foldlM step (.value stack) =
        (t.tokens ++ (moreItems ts ++ rest)).foldlM step (.firstItem stack) := by
      simp [tokens, step, beginValue]
    rw [hfirst, foldlM_firstItem, foldlM_tokens t, complete, foldlM_moreItems ts]
    rfl
  | object ((k, t) :: ms) => by
    have hfirst : ((object ((k, t) :: ms)).tokens ++ rest).foldlM step (.value stack) =
        (t.tokens ++ (moreMembers ms ++ rest)).foldlM step (.value (.object [] k :: stack)) := by
      simp [tokens, step, beginValue]
    rw [hfirst, foldlM_tokens t, complete, foldlM_moreMembers ms]
    rfl

/-- The words after an item make an array. -/
theorem foldlM_moreItems (ts done : List Tree) (stack : List Frame) (rest : List Token) :
    (moreItems ts ++ rest).foldlM step (.afterItem done stack) =
      rest.foldlM step (complete (.array (done.reverse ++ ts)) stack) :=
  match ts with
  | [] => by simp [moreItems, step]
  | t :: ts => by
    have hcomma : (moreItems (t :: ts) ++ rest).foldlM step (.afterItem done stack) =
        (t.tokens ++ (moreItems ts ++ rest)).foldlM step (.value (.array done :: stack)) := by
      simp [moreItems, step]
    rw [hcomma, foldlM_tokens t, complete, foldlM_moreItems ts]
    simp

/-- The words after a member make an object. -/
theorem foldlM_moreMembers (ms done : List (StringLit × Tree)) (stack : List Frame)
    (rest : List Token) : (moreMembers ms ++ rest).foldlM step (.afterMember done stack) =
      rest.foldlM step (complete (.object (done.reverse ++ ms)) stack) :=
  match ms with
  | [] => by simp [moreMembers, step]
  | (k, t) :: ms => by
    have hcomma : (moreMembers ((k, t) :: ms) ++ rest).foldlM step (.afterMember done stack) =
        (t.tokens ++ (moreMembers ms ++ rest)).foldlM step (.value (.object done k :: stack)) := by
      simp [moreMembers, step]
    rw [hcomma, foldlM_tokens t, complete, foldlM_moreMembers ms]
    simp

end

/-- A tree is read back from its tokens. -/
theorem ofTokens?_tokens (t : Tree) : ofTokens? t.tokens = some t := by
  rw [ofTokens?, ← List.append_nil t.tokens, foldlM_tokens]
  rfl

end Tree

/-! ## the text of data -/

namespace Value

mutual

/-- Whether all numbers are whole and have 64 bits. -/
def whole : Value → Bool
  | null | bool _ | string _ => true
  | int n => isWord n
  | real _ => false
  | array vs => wholeItems vs
  | object ms => wholeMembers ms

/-- Whether all numbers in items are whole. -/
def wholeItems : List Value → Bool
  | [] => true
  | v :: vs => whole v && wholeItems vs

/-- Whether all numbers in members are whole. -/
def wholeMembers : List (String × Value) → Bool
  | [] => true
  | (_, v) :: ms => whole v && wholeMembers ms

end

theorem wholeItems_eq_all (vs : List Value) : wholeItems vs = vs.all whole := by
  induction vs with
  | nil => rfl
  | cons v vs ih => rw [wholeItems, ih, List.all_cons]

theorem wholeMembers_eq_all (ms : List (String × Value)) :
    wholeMembers ms = ms.all fun m => m.2.whole := by
  induction ms with
  | nil => rfl
  | cons m ms ih => rw [wholeMembers, ih, List.all_cons]

mutual

/-- How data are read again after they were written. -/
def reread : Value → Tree
  | null => .null
  | bool b => .bool b
  | int n => .number (.ofInt n)
  | real d => .number (.ofDouble d)
  | string s => .string (.reread s)
  | array vs => .array (rereadItems vs)
  | object ms => .object (rereadMembers ms)

/-- How items are read again. -/
def rereadItems : List Value → List Tree
  | [] => []
  | v :: vs => reread v :: rereadItems vs

/-- How members are read again. -/
def rereadMembers : List (String × Value) → List (StringLit × Tree)
  | [] => []
  | (k, v) :: ms => (.reread k, reread v) :: rereadMembers ms

end

theorem rereadItems_eq (vs : List Value) : rereadItems vs = vs.map reread := by
  induction vs with
  | nil => rfl
  | cons v vs ih => rw [rereadItems, ih, List.map_cons]

theorem rereadMembers_eq (ms : List (String × Value)) :
    rereadMembers ms = ms.map fun m => (.reread m.1, m.2.reread) := by
  induction ms with
  | nil => rfl
  | cons m ms ih => rw [rereadMembers, ih, List.map_cons]

/-- After an item of an array a number has come to its end. -/
theorem ends_moreItems (ts : List Tree) (rest : List Char) :
    Ends ((Tree.moreItems ts).flatMap Token.render ++ rest) := by
  cases ts with
  | nil => exact .inr (.inl rfl)
  | cons t ts => exact .inl rfl

/-- After a member of an object a number has come to its end. -/
theorem ends_moreMembers (ms : List (StringLit × Tree)) (rest : List Char) :
    Ends ((Tree.moreMembers ms).flatMap Token.render ++ rest) := by
  cases ms with
  | nil => exact .inr (.inr rfl)
  | cons m ms => exact .inl rfl

mutual

/-- The words of data without real numbers are read from its text. -/
theorem tokensFrom?_toTree (v : Value) (h : v.whole = true) (rest : List Char)
    (hrest : Ends rest) : tokensFrom? .idle (v.toTree.tokens.flatMap Token.render ++ rest) =
      (tokensFrom? .idle rest).map (v.reread.tokens ++ ·) :=
  match v with
  | null => by
    simpa [toTree, Tree.tokens, reread] using tokensFrom?_render .null rfl rest
  | bool b => by
    simpa [toTree, Tree.tokens, reread] using tokensFrom?_render (.bool b) rfl rest
  | int n => by simpa [toTree, Tree.tokens, reread] using tokensFrom?_ofInt n hrest
  | real d => by cases h
  | string s => by simpa [toTree, Tree.tokens, reread] using tokensFrom?_string s
  | array [] => by
    simp only [toTree, itemTrees, Tree.tokens, List.flatMap_cons, List.flatMap_nil,
      List.append_assoc]
    rw [tokensFrom?_render .openArray rfl, List.nil_append, tokensFrom?_render .closeArray rfl]
    simp [reread, rereadItems, Tree.tokens, Function.comp_def]
  | array (v :: vs) => by
    obtain ⟨hv, hvs⟩ := (Bool.and_eq_true _ _).mp h
    simp only [toTree, itemTrees, Tree.tokens, List.flatMap_cons, List.flatMap_append,
      List.append_assoc]
    rw [tokensFrom?_render .openArray rfl, tokensFrom?_toTree v hv _ (ends_moreItems _ _),
      tokensFrom?_moreItems vs hvs]
    simp [reread, rereadItems, Tree.tokens, Function.comp_def]
  | object [] => by
    simp only [toTree, memberTrees, Tree.tokens, List.flatMap_cons, List.flatMap_nil,
      List.append_assoc]
    rw [tokensFrom?_render .openObject rfl, List.nil_append, tokensFrom?_render .closeObject rfl]
    simp [reread, rereadMembers, Tree.tokens, Function.comp_def]
  | object ((k, v) :: ms) => by
    obtain ⟨hv, hms⟩ := (Bool.and_eq_true _ _).mp h
    simp only [toTree, memberTrees, Tree.tokens, List.flatMap_cons, List.flatMap_append,
      List.append_assoc]
    rw [tokensFrom?_render .openObject rfl, tokensFrom?_string, tokensFrom?_render .colon rfl,
      tokensFrom?_toTree v hv _ (ends_moreMembers _ _), tokensFrom?_moreMembers ms hms]
    simp [reread, rereadMembers, Tree.tokens, Function.comp_def]

/-- The words after an item are read. -/
theorem tokensFrom?_moreItems (vs : List Value) (h : wholeItems vs = true) (rest : List Char) :
    tokensFrom? .idle ((Tree.moreItems (itemTrees vs)).flatMap Token.render ++ rest) =
      (tokensFrom? .idle rest).map (Tree.moreItems (rereadItems vs) ++ ·) :=
  match vs with
  | [] => by
    simpa [itemTrees, rereadItems, Tree.moreItems] using tokensFrom?_render .closeArray rfl rest
  | v :: vs => by
    obtain ⟨hv, hvs⟩ := (Bool.and_eq_true _ _).mp h
    simp only [itemTrees, Tree.moreItems, List.flatMap_cons, List.flatMap_append,
      List.append_assoc]
    rw [tokensFrom?_render .comma rfl, tokensFrom?_toTree v hv _ (ends_moreItems _ _),
      tokensFrom?_moreItems vs hvs]
    simp [rereadItems, Tree.moreItems, Function.comp_def]

/-- The words after a member are read. -/
theorem tokensFrom?_moreMembers (ms : List (String × Value)) (h : wholeMembers ms = true)
    (rest : List Char) :
    tokensFrom? .idle ((Tree.moreMembers (memberTrees ms)).flatMap Token.render ++ rest) =
      (tokensFrom? .idle rest).map (Tree.moreMembers (rereadMembers ms) ++ ·) :=
  match ms with
  | [] => by
    simpa [memberTrees, rereadMembers, Tree.moreMembers] using
      tokensFrom?_render .closeObject rfl rest
  | (k, v) :: ms => by
    obtain ⟨hv, hms⟩ := (Bool.and_eq_true _ _).mp h
    simp only [memberTrees, Tree.moreMembers, List.flatMap_cons, List.flatMap_append,
      List.append_assoc]
    rw [tokensFrom?_render .comma rfl, tokensFrom?_string, tokensFrom?_render .colon rfl,
      tokensFrom?_toTree v hv _ (ends_moreMembers _ _), tokensFrom?_moreMembers ms hms]
    simp [rereadMembers, Tree.moreMembers, Function.comp_def]

end

/-- The text of data is read as the tree of the data, with the strings as they were written. -/
theorem parse?_render {v : Value} (h : v.whole = true) : Tree.parse? v.render = some v.reread := by
  have htokens := tokensFrom?_toTree v h [] trivial
  rw [List.append_nil] at htokens
  rw [Tree.parse?, render, Tree.render, String.toList_ofList, tokens?, htokens]
  simp [tokensFrom?, Mode.finish, Tree.ofTokens?_tokens]

end Value

end ChainPlanner.Json
