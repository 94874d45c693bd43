import Mathlib.Data.List.Infix
import StarlarkLint.Text.Encoding

/-!
# Texts that files keep

Whatever the bytes of a file are, there is a text to them, and no carriage return in it.  The bytes
of a text are UTF-8, so that they are never taken for Latin-1, and they are read as the text again
but for what reading changes: carriage returns and a byte order mark at the head.  A text without
these is kept, and texts that are kept can be put together.

## Main definitions

* `Text.Kept` — a text with no carriage return, and no byte order mark at its head.

## Main results

* `Text.not_mem_decodeSource` — what is read holds no carriage return.
* `Text.decodeSource_encode_iff` — a text is read back from its bytes exactly if it is kept.
* `Text.Kept.append`, `Text.Kept.intercalate` — texts that are kept, one behind another.
-/

namespace StarlarkLint.Text

/-! ### Line ends -/

/-- **No carriage return is left.** -/
theorem not_mem_unifyLineEnds (cs : List Char) : '\r' ∉ unifyLineEnds cs := by
  fun_induction unifyLineEnds cs with
  | case1 => exact List.not_mem_nil
  | case2 cs ih => simpa using ih
  | case3 cs _ ih => simpa using ih
  | case4 c cs _ hc ih =>
    rw [List.mem_cons, not_or]
    exact ⟨fun h => hc h.symm, ih⟩

/-- Line ends take up no more characters than before. -/
theorem length_unifyLineEnds_le (cs : List Char) : (unifyLineEnds cs).length ≤ cs.length := by
  fun_induction unifyLineEnds cs with
  | case1 => exact Nat.le_refl 0
  | case2 cs ih =>
    simp only [List.length_cons]
    omega
  | case3 cs _ ih =>
    simp only [List.length_cons]
    omega
  | case4 c cs _ _ ih =>
    simp only [List.length_cons]
    omega

theorem unifyLineEnds_eq_self_iff {cs : List Char} : unifyLineEnds cs = cs ↔ '\r' ∉ cs := by
  constructor
  · intro h
    rw [← h]
    exact not_mem_unifyLineEnds cs
  · intro h
    fun_induction unifyLineEnds cs with
    | case1 => rfl
    | case2 => exact absurd List.mem_cons_self h
    | case3 => exact absurd List.mem_cons_self h
    | case4 c cs _ _ ih => rw [ih fun hmem => h (List.mem_cons_of_mem c hmem)]

/-- **What is read from a file holds no carriage return**, whatever its bytes. -/
theorem not_mem_decodeSource (bytes : ByteArray) : '\r' ∉ (decodeSource bytes).toList := by
  rw [decodeSource, String.toList_ofList]
  exact not_mem_unifyLineEnds _

/-! ### The bytes of a text -/

theorem toList_eq_data (bytes : ByteArray) : bytes.toList = bytes.data.toList := by
  have hloop : ∀ i passed,
      ByteArray.toList.loop bytes i passed = passed.reverse ++ bytes.data.toList.drop i := by
    intro i passed
    fun_induction ByteArray.toList.loop bytes i passed with
    | case1 i passed hlt ih =>
      have hsize : i < bytes.data.size := hlt
      have hnext : bytes.data.toList.drop i = bytes.get! i :: bytes.data.toList.drop (i + 1) := by
        rw [List.drop_eq_getElem_cons (by simpa using hsize), Array.getElem_toList,
          ← getElem!_pos bytes.data i hsize]
        rfl
      rw [ih, hnext, List.reverse_cons, List.append_assoc, List.singleton_append]
    | case2 i passed hge =>
      have hsize : bytes.data.size ≤ i := Nat.not_lt.mp hge
      rw [List.drop_of_length_le (by simpa using hsize), List.append_nil]
  exact hloop 0 []

theorem fromUTF8?_encode (text : String) : String.fromUTF8? (encode text) = some text := by
  rw [encode, String.toUTF8_eq_toByteArray, String.fromUTF8?, dif_pos text.isValidUTF8]
  rfl

/-- A file that has to be UTF-8 has a text exactly if it is. -/
theorem decodeUtf8?_eq_none_iff {bytes : ByteArray} :
    decodeUtf8? bytes = none ↔ ¬ bytes.IsValidUTF8 := by
  rw [decodeUtf8?, Option.map_eq_none_iff, String.fromUTF8?]
  split
  · next h => simpa using h
  · next h => simpa using h

/-- Of what the mark starts with, nothing is UTF-8 but the mark as a whole and nothing at all. -/
theorem dropMark_eq_nil {text : String}
    (h : (encode text).toList.isPrefixOf byteOrderMarkBytes = true) :
    dropMark text.toList = [] := by
  have hall : ∀ bytes ∈ byteOrderMarkBytes.inits, (String.fromUTF8? ⟨bytes.toArray⟩).all
      (fun text => decide (dropMark text.toList = [])) = true := by decide
  have hmem := hall _ ((List.mem_inits _ _).mpr (List.isPrefixOf_iff_prefix.mp h))
  rw [toList_eq_data, Array.toArray_toList, fromUTF8?_encode, Option.all_some] at hmem
  exact of_decide_eq_true hmem

/-- **The bytes of a text are read as its characters**, but for a mark at their head. -/
theorem sourceChars_encode (text : String) : sourceChars (encode text) = dropMark text.toList := by
  unfold sourceChars
  split
  · next h => exact (dropMark_eq_nil h).symm
  · rw [fromUTF8?_encode]

/-! ### Texts that are kept -/

/-- A text with no carriage return, and no byte order mark at its head. -/
structure Kept (text : String) : Prop where
  /-- There is no carriage return. -/
  no_return : '\r' ∉ text.toList
  /-- The mark does not come first. -/
  no_mark : byteOrderMark ∉ text.toList.head?

instance (text : String) : Decidable (Kept text) :=
  decidable_of_iff ('\r' ∉ text.toList ∧ byteOrderMark ∉ text.toList.head?)
    ⟨fun h => ⟨h.1, h.2⟩, fun h => ⟨h.no_return, h.no_mark⟩⟩

/-- **A text is read back from its bytes exactly if it is kept.** -/
theorem decodeSource_encode_iff {text : String} :
    decodeSource (encode text) = text ↔ Kept text := by
  rw [decodeSource, sourceChars_encode]
  constructor
  · intro h
    have hchars : unifyLineEnds (dropMark text.toList) = text.toList := by
      rw [← String.toList_ofList (l := unifyLineEnds (dropMark text.toList)), h]
    refine ⟨hchars ▸ not_mem_unifyLineEnds _, fun hmark => ?_⟩
    -- without the mark there are too few characters
    obtain ⟨cs, hcs⟩ := List.head?_eq_some_iff.mp hmark
    have hlength := length_unifyLineEnds_le cs
    rw [hcs, dropMark, if_pos rfl] at hchars
    rw [hchars, List.length_cons] at hlength
    omega
  · intro h
    have hmark : dropMark text.toList = text.toList := by
      have hhead := h.no_mark
      cases hchars : text.toList with
      | nil => rfl
      | cons c cs =>
        rw [hchars, List.head?_cons, Option.mem_some] at hhead
        rw [dropMark, if_neg hhead]
    rw [hmark, unifyLineEnds_eq_self_iff.mpr h.no_return, String.ofList_toList]

namespace Kept

variable {text other : String}

/-- One text behind another is kept if both are. -/
theorem append (h : Kept text) (h' : Kept other) : Kept (text ++ other) := by
  constructor
  · rw [String.toList_append, List.mem_append, not_or]
    exact ⟨h.no_return, h'.no_return⟩
  · intro hmark
    rw [String.toList_append, List.head?_append, Option.mem_def, Option.or_eq_some_iff] at hmark
    rcases hmark with hmark | ⟨-, hmark⟩
    · exact h.no_mark hmark
    · exact h'.no_mark hmark

theorem join {texts : List String} (h : ∀ text ∈ texts, Kept text) : Kept (String.join texts) := by
  induction texts with
  | nil => decide
  | cons text texts ih =>
    rw [List.forall_mem_cons] at h
    rw [String.join_cons]
    exact h.1.append (ih h.2)

theorem intercalate {sep : String} (hsep : Kept sep) {texts : List String}
    (h : ∀ text ∈ texts, Kept text) : Kept (sep.intercalate texts) := by
  induction texts with
  | nil =>
    rw [String.intercalate_nil]
    decide
  | cons text texts ih =>
    rw [List.forall_mem_cons] at h
    by_cases hempty : texts = []
    · rw [hempty, String.intercalate_singleton]
      exact h.1
    · rw [String.intercalate_cons_of_ne_nil hempty]
      exact (h.1.append hsep).append (ih h.2)

end Kept

end StarlarkLint.Text
