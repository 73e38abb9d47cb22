import RemoteEval.Client.SideChannel
import RemoteEval.Proofs.Text.Lossy

/-! Text that comes in pieces, cut anywhere. After each piece the bytes held back begin a character
that is not complete yet, and what was handed on is all before them. So the pieces make no
difference to the text, as long as it is one; what is handed on of other bytes is not said here. -/
namespace RemoteEval.Client.SideChannel
open Text

/- The bytes held back after these pieces. -/
def heldAfter (held : List UInt8) (pieces : List (List UInt8)) : List UInt8 :=
  pieces.foldl (fun held piece => (receive held piece).2) held

theorem receiveCut {held piece tail : List UInt8} {whole : List Char}
    (split : held ++ piece = Utf8.encode (String.ofList whole) ++ tail)
    (begins : Utf8.Begins tail) : receive held piece = (String.ofList whole, tail) := by
  have served : ready (held ++ piece) = (Utf8.encode (String.ofList whole)).length := by
    rw [split, ready, Utf8.decodeCut whole begins]
    by_cases empty : tail = []
    · simp [empty]
    · simp [empty]
  have all := Utf8.lossyCut whole Utf8.beginsNil
  rw [List.append_nil, if_pos rfl, List.append_nil] at all
  rw [receive, served, split, List.take_left, List.drop_left, all]

theorem pieceReceived {held piece rest : List UInt8} {cs : List Char}
    (text : held ++ (piece ++ rest) <+: Utf8.encode (String.ofList cs)) :
    ∃ whole more tail, cs = whole ++ more ∧ receive held piece = (String.ofList whole, tail) ∧
      held ++ piece = Utf8.encode (String.ofList whole) ++ tail ∧ Utf8.Begins tail ∧
      tail ++ rest <+: Utf8.encode (String.ofList more) := by
  rw [← List.append_assoc, Utf8.encodeOfList] at text
  obtain ⟨whole, tail, ⟨more, rfl⟩, split, begins⟩ :=
    Utf8.prefixSplits ((List.prefix_append _ rest).trans text)
  rw [← Utf8.encodeOfList] at split
  refine ⟨whole, more, tail, rfl, receiveCut split begins, split, begins, ?_⟩
  rw [split, Utf8.encodeOfList, List.flatMap_append, List.append_assoc] at text
  rw [Utf8.encodeOfList]
  exact (List.prefix_append_right_inj _).mp text

theorem splitOn {s t : String} {held piece rest tail last : List UInt8}
    (first : held ++ piece = Utf8.encode s ++ tail) (next : tail ++ rest = Utf8.encode t ++ last) :
    held ++ (piece ++ rest) = Utf8.encode (s ++ t) ++ last := by
  rw [← List.append_assoc, first, List.append_assoc, next, Utf8.encodeAppend, List.append_assoc]

theorem textsCut {held : List UInt8} {pieces : List (List UInt8)} {cs : List Char}
    (begins : Utf8.Begins held)
    (text : held ++ pieces.flatten <+: Utf8.encode (String.ofList cs)) :
    ∃ whole tail, whole <+: cs ∧
      held ++ pieces.flatten = Utf8.encode (String.ofList whole) ++ tail ∧ Utf8.Begins tail ∧
      String.join (texts held pieces) =
        String.ofList (whole ++ if tail = [] then [] else [Utf8.replacement]) := by
  induction pieces generalizing held cs with
  | nil =>
    refine ⟨[], held, List.nil_prefix, by simp [Utf8.encode], begins, ?_⟩
    have lossy := Utf8.lossyCut [] begins
    rw [Utf8.encodeOfList, List.flatMap_nil, List.nil_append] at lossy
    by_cases empty : held = []
    · simp [texts, empty, String.join]
    · simpa [texts, empty, String.join] using lossy
  | cons piece rest ih =>
    rw [List.flatten_cons] at text
    obtain ⟨first, more, tail, rfl, received, split, begins, text⟩ := pieceReceived text
    obtain ⟨whole, last, among, same, begins, joined⟩ := ih begins text
    refine ⟨first ++ whole, last, (List.prefix_append_right_inj first).mpr among, ?_, begins, ?_⟩
    · rw [List.flatten_cons, String.ofList_append]
      exact splitOn split same
    · rw [texts, received, String.join_cons, joined, ← String.ofList_append, List.append_assoc]

theorem heldCut {held : List UInt8} {pieces : List (List UInt8)} {cs : List Char}
    (begins : Utf8.Begins held)
    (text : held ++ pieces.flatten <+: Utf8.encode (String.ofList cs)) {n : Nat}
    (read : n ≤ pieces.length) :
    held ++ (pieces.take n).flatten =
        Utf8.encode (String.join ((texts held pieces).take n)) ++ heldAfter held (pieces.take n) ∧
      Utf8.Begins (heldAfter held (pieces.take n)) := by
  induction n generalizing held pieces cs with
  | zero => simpa [heldAfter, Utf8.encode, String.join] using begins
  | succ n ih =>
    cases pieces with
    | nil => simp at read
    | cons piece rest =>
      rw [List.flatten_cons] at text
      obtain ⟨first, more, tail, rfl, received, split, begins, text⟩ := pieceReceived text
      obtain ⟨same, begins⟩ := ih begins text (Nat.le_of_succ_le_succ read)
      have after : heldAfter held (piece :: rest.take n) = heldAfter tail (rest.take n) := by
        rw [heldAfter, List.foldl_cons, received]
        rfl
      rw [List.take_succ_cons, after, texts, received, List.take_succ_cons, String.join_cons]
      exact ⟨splitOn split same, begins⟩

/- However a text is cut, and wherever it ends. -/
theorem charactersWhole {s : String} {pieces : List (List UInt8)}
    (text : pieces.flatten <+: Utf8.encode s) :
    String.join (texts [] pieces) = Utf8.decodeLossy pieces.flatten ∧
    (∃ whole tail, whole <+: s.toList ∧
      pieces.flatten = Utf8.encode (String.ofList whole) ++ tail ∧ Utf8.Begins tail ∧
      String.join (texts [] pieces) =
        String.ofList (whole ++ if tail = [] then [] else [Utf8.replacement])) ∧
    ∀ n ≤ pieces.length,
      (pieces.take n).flatten =
        Utf8.encode (String.join ((texts [] pieces).take n)) ++ heldAfter [] (pieces.take n) ∧
      Utf8.Begins (heldAfter [] (pieces.take n)) ∧ (heldAfter [] (pieces.take n)).length ≤ 3 := by
  rw [← String.ofList_toList (s := s)] at text
  obtain ⟨whole, tail, among, split, begins, joined⟩ := textsCut Utf8.beginsNil text
  rw [List.nil_append] at split
  refine ⟨?_, ⟨whole, tail, among, split, begins, joined⟩, fun n read => ?_⟩
  · rw [joined, split, Utf8.lossyCut whole begins]
  · obtain ⟨same, begins⟩ := heldCut Utf8.beginsNil text read
    exact ⟨same, begins, Utf8.beginsShort begins⟩

def cutText : List (List UInt8) := [[0x61, 0xc3], [0xa9, 0xe2, 0x82], [0xac, 0xf0, 0x9f], [0x98]]

theorem cutTextWhole :
    cutText.flatten <+: Utf8.encode "aé€😀" ∧
    String.join (texts [] cutText) = "aé€\ufffd" ∧
    (cutText.take 3).flatten =
      Utf8.encode (String.join ((texts [] cutText).take 3)) ++ heldAfter [] (cutText.take 3) ∧
    (heldAfter [] cutText).length ≤ 3 := by
  have text : cutText.flatten <+: Utf8.encode "aé€😀" := ⟨[0x80], by decide⟩
  obtain ⟨joined, -, held⟩ := charactersWhole text
  exact ⟨text, joined.trans (by decide +kernel), (held 3 (by decide)).1,
    (held 4 (Nat.le_refl 4)).2.2⟩

end RemoteEval.Client.SideChannel
