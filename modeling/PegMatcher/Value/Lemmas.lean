import PegMatcher.Value.Text
import PegMatcher.ValueVector.Lemmas
/-
The text of a vector is the texts of its elements one after the other, whatever its
representation and whatever follows an improper chain.
-/
namespace PegMatcher

variable {π : Type} [Payload π]

mutual
theorem Value.textOnto_eq (out : String) (v : Value π) : v.textOnto out = out ++ v.text := by
  cases v with
  | null => simp [Value.text, Value.textOnto]
  | char c => simp [Value.text, Value.textOnto]
  | str s => simp [Value.text, Value.textOnto]
  | int n => simp [Value.text, Value.textOnto]
  | float x => simp [Value.text, Value.textOnto]
  | custom payload => simp [Value.text, Value.textOnto]
  | vector v =>
    simp only [Value.text, Value.textOnto]
    rw [ValueVector.textOnto_eq out v, ValueVector.textOnto_eq "" v, String.empty_append]

theorem ValueVector.textOnto_eq (out : String) (v : ValueVector π) :
    v.textOnto out = out ++ String.join (v.toList.map Value.text) := by
  cases v with
  | nil => simp [ValueVector.textOnto, ValueVector.toList]
  | array items => exact ValueVector.itemsTextOnto_eq out items
  | cons head tail =>
    simp only [ValueVector.textOnto, ValueVector.toList_cons, List.map_cons, String.join_cons]
    rw [Value.spineTextOnto_eq _ tail, Value.textOnto_eq out head, String.append_assoc]

theorem Value.spineTextOnto_eq (out : String) (v : Value π) :
    v.spineTextOnto out = out ++ String.join (v.spine.map Value.text) := by
  match v with
  | .vector (.cons head tail) =>
    simp only [Value.spineTextOnto, Value.spine, List.map_cons, String.join_cons]
    rw [Value.spineTextOnto_eq _ tail, Value.textOnto_eq out head, String.append_assoc]
  | .vector .nil | .vector (.array _) | .null | .char _ | .str _ | .int _ | .float _
  | .custom _ => simp [Value.spineTextOnto, Value.spine]

theorem ValueVector.itemsTextOnto_eq (out : String) (items : List (Value π)) :
    ValueVector.itemsTextOnto out items = out ++ String.join (items.map Value.text) := by
  cases items with
  | nil => simp [ValueVector.itemsTextOnto]
  | cons item items =>
    simp only [ValueVector.itemsTextOnto, List.map_cons, String.join_cons]
    rw [ValueVector.itemsTextOnto_eq _ items, Value.textOnto_eq out item, String.append_assoc]
end

theorem Value.text_vector (v : ValueVector π) :
    (Value.vector v).text = String.join (v.toList.map Value.text) := by
  rw [Value.text, Value.textOnto, ValueVector.textOnto_eq, String.empty_append]

@[simp] theorem Value.text_null : (.null : Value π).text = "" := rfl

@[simp] theorem Value.text_char (c : Char) : (.char c : Value π).text = String.ofList [c] := by
  simp [Value.text, Value.textOnto]

@[simp] theorem Value.text_str (s : String) : (.str s : Value π).text = s := by
  simp [Value.text, Value.textOnto]

@[simp] theorem Kind.text_collect (kind : Kind) (items : List (Value π)) :
    (kind.collect items).text = String.join (items.map Value.text) := by
  rw [Kind.collect, Value.text_vector, Kind.toList_create]

end PegMatcher
