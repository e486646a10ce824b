/-
What the application takes from the language.

A `dict` keeps its keys in the order in which they were first assigned, and so does a store
of rows: assigning to a key is putting a row.
-/
import AutomationPlatform.Exceptions
import AutomationPlatform.Sql.Store
import Mathlib.Data.List.Induction

namespace AutomationPlatform

/-- Values under keys, in insertion order. -/
abbrev Dict (κ β : Type) := Sql.Store κ fun _ => β

namespace Dict

variable {κ β : Type} [DecidableEq κ]

/-- `d[key]`. -/
def get (d : Dict κ β) (key : κ) : Except Raised β :=
  match d.row key with
  | some value => .ok value
  | none => .error { class_ := .key }

/-- `{key: value for ...}`; the last value of a key counts. -/
def ofList (items : List (κ × β)) : Dict κ β :=
  items.foldl (fun d item => d.put item.1 item.2) .empty

omit [DecidableEq κ] in
theorem get_eq_ok {d : Dict κ β} {key : κ} {value : β} :
    d.get key = .ok value ↔ d.row key = some value := by
  unfold get
  cases d.row key <;> simp

theorem ofList_snoc (items : List (κ × β)) (item : κ × β) :
    ofList (items ++ [item]) = (ofList items).put item.1 item.2 := by
  unfold ofList
  rw [List.foldl_append]
  rfl

/-- A key without a value was never assigned. -/
theorem ofList_row_none {items : List (κ × β)} {key : κ} (h : key ∉ items.map (·.1)) :
    (ofList items).row key = none := by
  induction items using List.reverseRecOn with
  | nil => rfl
  | append_singleton rest item ih =>
      rw [List.map_append, List.mem_append] at h
      rw [ofList_snoc, Sql.Store.put_row_ne _ _ fun hk => h (Or.inr (by simp [hk]))]
      exact ih fun hrest => h (Or.inl hrest)

/-- Where no key is assigned twice, every item is found. -/
theorem ofList_row {items : List (κ × β)} (hnd : (items.map (·.1)).Nodup) {key : κ} {value : β}
    (h : (key, value) ∈ items) : (ofList items).row key = some value := by
  induction items using List.reverseRecOn with
  | nil => simp at h
  | append_singleton rest item ih =>
      rw [List.map_append, List.nodup_append] at hnd
      rw [ofList_snoc]
      rcases List.mem_append.mp h with hrest | hlast
      · rw [Sql.Store.put_row_ne _ _ fun hk =>
          hnd.2.2 key (List.mem_map_of_mem hrest) item.1 (by simp) hk]
        exact ih hnd.1 hrest
      · rw [List.mem_singleton] at hlast
        subst hlast
        exact Sql.Store.put_row_self _ _ _

/-- Then the order of the items does not matter to a lookup. -/
theorem ofList_row_perm {items items' : List (κ × β)} (hperm : items.Perm items')
    (hnd : (items.map (·.1)).Nodup) (key : κ) : (ofList items).row key = (ofList items').row key := by
  have hkeys := hperm.map (·.1)
  by_cases hkey : key ∈ items.map (·.1)
  · obtain ⟨⟨_, value⟩, hmem, rfl⟩ := List.mem_map.mp hkey
    rw [ofList_row hnd hmem, ofList_row (hkeys.nodup_iff.mp hnd) (hperm.mem_iff.mp hmem)]
  · rw [ofList_row_none hkey, ofList_row_none fun hmem => hkey (hkeys.mem_iff.mpr hmem)]

/-- And the keys come in the order of the items. -/
theorem ofList_keys {items : List (κ × β)} (hnd : (items.map (·.1)).Nodup) :
    (ofList items).keys = items.map (·.1) := by
  induction items using List.reverseRecOn with
  | nil => rfl
  | append_singleton rest item ih =>
      rw [List.map_append, List.nodup_append] at hnd
      have hnew : item.1 ∉ (ofList rest).keys := by
        rw [ih hnd.1]
        exact fun hk => hnd.2.2 _ hk item.1 (by simp) rfl
      rw [ofList_snoc, List.map_append]
      show (if item.1 ∈ (ofList rest).keys then _ else _) = _
      rw [if_neg hnew, ih hnd.1]
      rfl

end Dict

/-! ### Texts -/

/-- Two lower-case hexadecimal digits. -/
def hexByte (n : Nat) : String :=
  String.ofList [Nat.digitChar (n / 16), Nat.digitChar (n % 16)]

def apostrophe : Char := Char.ofNat 39

def quotationMark : Char := Char.ofNat 34

def backslash : Char := Char.ofNat 92

/-- A character within quotes, as `repr` writes it. -/
def escapeChar (quote c : Char) : String :=
  if c = quote ∨ c = backslash then String.ofList [backslash, c]
  else if c.toNat = 10 then String.ofList [backslash, 'n']
  else if c.toNat = 13 then String.ofList [backslash, 'r']
  else if c.toNat = 9 then String.ofList [backslash, 't']
  else if c.toNat < 32 ∨ c.toNat = 127 then String.ofList [backslash, 'x'] ++ hexByte c.toNat
  else String.ofList [c]

/-- `repr` of a text whose characters beyond ASCII are printable and so stand for themselves.
The others among them, which Python escapes as it does those above, are written as they are. -/
def reprText (text : String) : String :=
  let quote :=
    if apostrophe ∈ text.toList ∧ quotationMark ∉ text.toList then quotationMark else apostrophe
  String.ofList [quote] ++ String.join (text.toList.map (escapeChar quote)) ++ String.ofList [quote]

/-- `repr` of a list of texts. -/
def reprTexts (texts : List String) : String :=
  "[" ++ String.intercalate ", " (texts.map reprText) ++ "]"

/-- `sorted` of texts. -/
def sortedTexts (texts : List String) : List String := texts.mergeSort fun a b => decide (a ≤ b)

example : reprText "it's" = "\"it's\"" := by decide

end AutomationPlatform
