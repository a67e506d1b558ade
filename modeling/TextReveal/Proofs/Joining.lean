import TextReveal.Proofs.Offsets
import TextReveal.Proofs.Stripping
/-!
Texts put together. If nothing is left open at the end of the first, its pieces stay what they are,
and those of the second come behind them, moved by its width.
-/
namespace TextReveal

/-- Nothing opens behind the last span of a text. -/
def Text.IsClosed (text : String) : Prop :=
  ∀ gap, (Segment.cut text.toList).getLast? = some (.gap gap) → '[' ∉ gap

theorem Text.isClosed_iff {text : String} {gap : List Char}
    (h : (Segment.cut text.toList).getLast? = some (.gap gap)) : IsClosed text ↔ '[' ∉ gap := by
  simp [IsClosed, h]

theorem Cut.IsProper.getLast?_cut {c : Cut} (h : c.IsProper) :
    (Segment.cut c.chars).getLast? = some (.gap c.last) := by
  rw [h.cut_chars, segments, List.getLast?_concat]

/-- Characters that open nothing go to the first gap. -/
theorem Segment.cut_append {before : List Char} (h : '[' ∉ before) (text : List Char) :
    ∃ gap rest, cut text = .gap gap :: rest ∧
      cut (before ++ text) = .gap (before ++ gap) :: rest := by
  obtain ⟨⟨spans, last⟩, hproper, rfl⟩ := Cut.exists_isProper text
  cases spans with
  | nil => exact ⟨last, [], hproper.cut_chars, cut_last (hproper.last_append h)⟩
  | cons s spans =>
    obtain ⟨gap, inner⟩ := s
    have hgap : '[' ∉ gap := hproper.gap _ List.mem_cons_self
    have hinner : ']' ∉ inner := hproper.inner (gap, inner) List.mem_cons_self
    have hmore : '[' ∉ before ++ gap := by
      rw [List.mem_append, not_or]
      exact ⟨h, hgap⟩
    rw [Cut.chars_cons, ← List.append_assoc, ← List.append_assoc]
    exact ⟨gap, _, cut_span hgap hinner _, cut_span hmore hinner _⟩

/-- A text in brackets is one span. -/
theorem Segment.cut_chars_span {inner : List Char} (h : ']' ∉ inner) :
    cut (span inner).chars = [.gap [], .span inner, .gap []] := by
  have hnothing : cut [] = [.gap []] := cut_last (by simp)
  rw [← hnothing]
  exact cut_span List.not_mem_nil h []

theorem Text.isClosed_of_span {text : String} {inner : List Char} (h : ']' ∉ inner)
    (htext : text.toList = (Segment.span inner).chars) : IsClosed text := by
  have hlast : (Segment.cut text.toList).getLast? = some (.gap []) := by
    rw [htext, Segment.cut_chars_span h]
    rfl
  exact (isClosed_iff hlast).mpr List.not_mem_nil

theorem Tag.exists_inner_of_mem {text : String} {t : Tag} (h : t ∈ lex text) :
    ∃ start inner, ']' ∉ inner ∧ ofSpan? start inner = some t := by
  obtain ⟨c, hproper, hchars⟩ := Cut.exists_isProper text.toList
  obtain ⟨start, inner, hmem, hspan⟩ := exists_ofSpan?_of_mem h
  rw [← hchars, hproper.cut_chars, Cut.segments] at hmem
  obtain ⟨s, hs, rfl⟩ : ∃ s ∈ c.spans, inner = s.2 := by simpa using hmem
  exact ⟨start, s.2, hproper.inner s hs, hspan⟩

theorem Tag.moved_moved (m n : Nat) (t : Tag) : (t.moved m).moved n = t.moved (m + n) := by
  simp only [moved, Nat.add_assoc]

namespace Piece

def moved (n : Nat) : Piece → Piece
  | plain c => plain c
  | tag t => tag (t.moved n)

theorem moved_moved (m n : Nat) (p : Piece) : (p.moved m).moved n = p.moved (m + n) := by
  cases p with
  | plain c => rfl
  | tag t => exact congrArg tag (t.moved_moved m n)

theorem flatMap_chars_moved (n : Nat) (pieces : List Piece) :
    (pieces.map (moved n)).flatMap chars = pieces.flatMap chars := by
  rw [List.flatMap_map]
  congr 1
  funext p
  cases p <;> rfl

theorem filterMap_tag?_moved (n : Nat) (pieces : List Piece) :
    (pieces.map (moved n)).filterMap tag? = (pieces.filterMap tag?).map (Tag.moved n) := by
  rw [List.filterMap_map, List.map_filterMap]
  congr 1
  funext p
  cases p <;> rfl

theorem Placed.moved {position : Nat} {pieces : List Piece} (h : Placed position pieces) (n : Nat) :
    Placed (position + n) (pieces.map (Piece.moved n)) := by
  induction h using Placed.along with
  | nil => trivial
  | plain c rest _ _ ih => rwa [Nat.add_right_comm] at ih
  | tag t rest hlies _ _ ih =>
    refine ⟨congrArg (· + n) hlies.start, ?_, hlies.nonempty, hlies.normal, ih⟩
    simp only [Tag.moved, hlies.stop]
    omega

theorem Placed.append {position : Nat} {pieces rest : List Piece} (h : Placed position pieces)
    (hrest : Placed (position + Text.width (pieces.flatMap chars)) rest) :
    Placed position (pieces ++ rest) := by
  induction h using Placed.along with
  | nil => exact hrest
  | plain c pieces _ _ ih =>
    rw [List.flatMap_cons, Text.width_append, ← Nat.add_assoc] at hrest
    exact ih hrest
  | tag t pieces hlies _ _ ih =>
    rw [List.flatMap_cons, Text.width_append, ← Nat.add_assoc, chars, ← hlies.stop] at hrest
    exact ⟨hlies.start, hlies.stop, hlies.nonempty, hlies.normal, ih hrest⟩

theorem ofSegment_add (start n : Nat) (s : Segment) :
    ofSegment (start + n) s = (ofSegment start s).map (moved n) := by
  have hplain (cs : List Char) : cs.map plain = (cs.map plain).map (moved n) := by
    rw [List.map_map]
    rfl
  cases s with
  | gap cs => exact hplain cs
  | span inner =>
    rw [ofSegment, ofSegment, Tag.ofSpan?_add]
    cases Tag.ofSpan? start inner with
    | none => exact hplain _
    | some t => rfl

theorem ofSegments_add (start n : Nat) (segments : List Segment) :
    ofSegments (start + n) segments = (ofSegments start segments).map (moved n) := by
  induction segments generalizing start with
  | nil => rfl
  | cons s rest ih =>
    rw [ofSegments, ofSegments, ofSegment_add, Nat.add_right_comm, ih, List.map_append]

theorem ofSegments_cut_append {c : Cut} (h : c.IsProper) (hlast : '[' ∉ c.last) (start : Nat)
    (text : List Char) : ofSegments start (Segment.cut (c.chars ++ text)) =
      ofSegments start c.segments ++
        ofSegments (start + Text.width c.chars) (Segment.cut text) := by
  obtain ⟨spans, last⟩ := c
  induction spans generalizing start with
  | nil =>
    -- The gap at the seam is one gap, but its characters are pieces of their own.
    obtain ⟨gap, rest, hcut, hmore⟩ := Segment.cut_append hlast text
    show ofSegments start (Segment.cut (last ++ text)) =
      (last.map plain ++ []) ++ ofSegments (start + Text.width last) _
    rw [hmore, hcut, ofSegments, ofSegments, Segment.width, Segment.width, Segment.chars,
      Segment.chars, Text.width_append, ← Nat.add_assoc, ofSegment, ofSegment, List.map_append,
      List.append_nil, List.append_assoc]
  | cons s spans ih =>
    obtain ⟨gap, inner⟩ := s
    have hgap : '[' ∉ gap := h.gap _ List.mem_cons_self
    have hinner : ']' ∉ inner := h.inner (gap, inner) List.mem_cons_self
    have hwidth : start + (Segment.gap gap).width + (Segment.span inner).width +
        Text.width (Cut.chars ⟨spans, last⟩) =
          start + Text.width (gap ++ '[' :: inner ++ ']' :: Cut.chars ⟨spans, last⟩) := by
      simp only [Segment.width, Segment.chars, Text.width_append, Text.width]
      omega
    rw [Cut.chars_cons, Cut.segments_cons, List.append_assoc, List.cons_append,
      Segment.cut_span hgap hinner, ofSegments, ofSegments, ofSegments, ofSegments,
      ih _ h.tail hlast, hwidth]
    simp only [List.append_assoc]

/-- Behind a text that leaves nothing open another is cut as it is on its own. -/
theorem cut_append {text : String} (h : Text.IsClosed text) (rest : String) :
    cut (text ++ rest) = cut text ++ (cut rest).map (moved text.utf8ByteSize) := by
  obtain ⟨c, hproper, hchars⟩ := Cut.exists_isProper text.toList
  have hlast : '[' ∉ c.last := h _ (hchars ▸ hproper.getLast?_cut)
  have hpieces := ofSegments_cut_append hproper hlast 0 rest.toList
  rw [← hproper.cut_chars, hchars, Text.width_toList, ofSegments_add] at hpieces
  rw [cut, String.toList_append]
  exact hpieces

/-- A text that is one tag. -/
theorem cut_of_fullText {text : String} {t : Tag} (ht : t ∈ Tag.lex text)
    (hspan : t.fullText = text) : cut text = [tag t] ∧ Text.IsClosed text := by
  obtain ⟨start, inner, hinner, hfull⟩ := Tag.exists_inner_of_mem ht
  -- The span of the tag is the whole text, so there is nothing before it and nothing behind it.
  have htext : text.toList = (Segment.span inner).chars := by
    rw [← hspan, Tag.fullText_of_ofSpan? hfull]
  constructor
  · rw [Tag.lex, htext, Segment.cut_chars_span hinner] at ht
    have hat : Tag.ofSpan? 0 inner = some t := by
      simpa [Tag.ofSegments, Text.width] using ht
    rw [cut, htext, Segment.cut_chars_span hinner]
    show [] ++ (ofSegment 0 (.span inner) ++ []) = [tag t]
    rw [ofSegment, hat]
    rfl
  · exact Text.isClosed_of_span hinner htext

end Piece
end TextReveal
