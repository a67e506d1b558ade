import TextReveal.Proofs.Joining
/-!
Seams. What the first of two texts leaves open decides which tags they have together. If it leaves
nothing open, they have those of each; a bracket that it leaves open is closed by the first bracket
of the second text that closes.
-/
namespace TextReveal

/-- Behind `head` a bracket opens that nothing in the text closes. -/
structure Text.LeavesOpen (text head inside : String) : Prop where
  eq : text = head ++ "[" ++ inside
  head : IsClosed head
  inside : ']' ∉ inside.toList

theorem Text.exists_leavesOpen {text : String} (h : ¬IsClosed text) :
    ∃ head inside, LeavesOpen text head inside := by
  obtain ⟨⟨spans, last⟩, hproper, hchars⟩ := Cut.exists_isProper text.toList
  have hlast : '[' ∈ last := by
    rwa [isClosed_iff (hchars ▸ hproper.getLast?_cut), not_not] at h
  -- The bracket left open is the first one behind the last span.
  obtain ⟨gap, inside, rfl, hgap⟩ := List.eq_append_cons_of_mem hlast
  have hhead : Cut.IsProper ⟨spans, gap⟩ := by
    refine ⟨hproper.gap, hproper.inner, fun before after hsplit => absurd ?_ hgap⟩
    rw [show gap = before ++ '[' :: after from hsplit]
    simp
  refine ⟨String.ofList (Cut.chars ⟨spans, gap⟩), String.ofList inside, ?_, ?_, ?_⟩
  · rw [← String.toList_inj, ← hchars]
    simp [Cut.chars]
  · refine (isClosed_iff ?_).mpr hgap
    rw [String.toList_ofList]
    exact hhead.getLast?_cut
  · rw [String.toList_ofList]
    exact hproper.last gap inside rfl

namespace Tag

theorem lex_append {text : String} (h : Text.IsClosed text) (behind : String) :
    lex (text ++ behind) = lex text ++ (lex behind).map (moved text.utf8ByteSize) := by
  rw [← Piece.tags_cut, ← Piece.tags_cut, ← Piece.tags_cut, Piece.cut_append h,
    List.filterMap_append, Piece.filterMap_tag?_moved]

theorem lex_of_span {text : String} {inner : List Char} (h : ']' ∉ inner)
    (htext : text.toList = (Segment.span inner).chars) : lex text = (ofSpan? 0 inner).toList := by
  rw [lex, htext, Segment.cut_chars_span h]
  simp [ofSegments, Text.width]

/-- What opens and is not closed holds no tags. -/
theorem lex_of_unclosed {text : String} {inner : List Char} (h : ']' ∉ inner)
    (htext : text.toList = '[' :: inner) : lex text = [] := by
  have hcut : Segment.cut ('[' :: inner) = [.gap ('[' :: inner)] := by
    refine Segment.cut_last fun before after hsplit hmem => ?_
    have hclosed : ']' ∈ '[' :: inner := by
      rw [hsplit]
      simp [hmem]
    simp [h] at hclosed
  rw [lex, htext, hcut]
  rfl

end Tag

namespace Text.LeavesOpen
open Tag
variable {text head inside : String}

theorem lex_append_of_notMem (h : LeavesOpen text head inside) (behind : String)
    (hbehind : ']' ∉ behind.toList) : lex (text ++ behind) = lex head := by
  have hinner : ']' ∉ inside.toList ++ behind.toList := by
    rw [List.mem_append, not_or]
    exact ⟨h.inside, hbehind⟩
  have hopen : lex ("[" ++ (inside ++ behind)) = [] := lex_of_unclosed hinner (by simp)
  rw [h.eq, String.append_assoc, String.append_assoc, lex_append h.head, hopen, List.map_nil,
    List.append_nil]

theorem lex_head (h : LeavesOpen text head inside) : lex head = lex text := by
  have hempty := h.lex_append_of_notMem "" (by simp)
  rw [← hempty, String.append_empty]

theorem lex_append_bracket (h : LeavesOpen text head inside) {before : String}
    (hbefore : ']' ∉ before.toList) (rest : String) :
    lex (text ++ (before ++ "]" ++ rest)) =
      lex text ++ (ofSpan? head.utf8ByteSize (inside ++ before).toList).toList ++
        (lex rest).map (moved (text ++ before ++ "]").utf8ByteSize) := by
  have hinner : ']' ∉ (inside ++ before).toList := by
    rw [String.toList_append, List.mem_append, not_or]
    exact ⟨h.inside, hbefore⟩
  have hspan : ("[" ++ inside ++ before ++ "]").toList =
      (Segment.span (inside ++ before).toList).chars := by
    simp [Segment.chars]
  have hmoved : (ofSpan? 0 (inside ++ before).toList).toList.map (moved head.utf8ByteSize) =
      (ofSpan? head.utf8ByteSize (inside ++ before).toList).toList := by
    rw [← Nat.zero_add head.utf8ByteSize, ofSpan?_add, Option.toList_map]
    simp
  have hjoined : text ++ (before ++ "]" ++ rest) =
      head ++ ("[" ++ inside ++ before ++ "]" ++ rest) := by
    simp only [h.eq, String.append_assoc]
  have hwidth : (text ++ before ++ "]").utf8ByteSize =
      ("[" ++ inside ++ before ++ "]").utf8ByteSize + head.utf8ByteSize := by
    simp only [h.eq, String.utf8ByteSize_append]
    omega
  -- The text falls into three that are closed: the head, the span at the seam, and the rest.
  rw [hjoined, lex_append h.head, lex_append (isClosed_of_span hinner hspan),
    lex_of_span hinner hspan, List.map_append, hmoved, List.map_map, hwidth, h.lex_head,
    List.append_assoc]
  congr 3
  funext t
  exact moved_moved ..

end Text.LeavesOpen

namespace Tag

theorem lex_fullText {text : String} {t : Tag} (h : t ∈ lex text) :
    lex t.fullText = [{ t with start := 0, stop := t.length }] := by
  obtain ⟨start, inner, hinner, hspan⟩ := exists_inner_of_mem h
  have hmoved := ofSpan?_add 0 start inner
  rw [Nat.zero_add, hspan] at hmoved
  obtain ⟨u, hu, rfl⟩ := Option.map_eq_some_iff.mp hmoved.symm
  have hstart : u.start = 0 := start_of_ofSpan? hu
  have hstop : u.length = u.stop := by rw [length, hstart, Nat.sub_zero]
  rw [lex_of_span hinner (fullText_of_ofSpan? hspan), hu, length_moved, hstop]
  simp only [moved, ← hstart]
  rfl

/-- What comes behind a text that leaves nothing open has the tags that it has on its own. What
comes behind a text that leaves a bracket open has them behind its own first bracket that closes,
and the two make a span. On its own the span of a tag is that tag. -/
theorem lex_seam (text behind : String) :
    (Text.IsClosed text →
      lex (text ++ behind) = lex text ++ (lex behind).map (moved text.utf8ByteSize)) ∧
    (¬Text.IsClosed text → ∃ head inside, Text.LeavesOpen text head inside ∧
      (']' ∉ behind.toList → lex (text ++ behind) = lex text) ∧
      (']' ∈ behind.toList → ∃ before rest, behind = before ++ "]" ++ rest ∧
        ']' ∉ before.toList ∧
        lex (text ++ behind) =
          lex text ++ (ofSpan? head.utf8ByteSize (inside ++ before).toList).toList ++
            (lex rest).map (moved (text ++ before ++ "]").utf8ByteSize))) ∧
    ∀ t ∈ lex text, lex t.fullText = [{ t with start := 0, stop := t.length }] := by
  refine ⟨fun h => lex_append h behind, fun h => ?_, fun t ht => lex_fullText ht⟩
  obtain ⟨head, inside, hopen⟩ := Text.exists_leavesOpen h
  refine ⟨head, inside, hopen, fun hbehind => ?_, fun hbehind => ?_⟩
  · rw [hopen.lex_append_of_notMem behind hbehind, hopen.lex_head]
  · obtain ⟨before, rest, hsplit, hbefore⟩ := List.eq_append_cons_of_mem hbehind
    have hjoined : behind = String.ofList before ++ "]" ++ String.ofList rest := by
      rw [← String.toList_inj, hsplit]
      simp
    have hfirst : ']' ∉ (String.ofList before).toList := by
      rwa [String.toList_ofList]
    refine ⟨String.ofList before, String.ofList rest, hjoined, hfirst, ?_⟩
    rw [hjoined]
    exact hopen.lex_append_bracket hfirst _

/-- A text that ends behind a span without a name, and one that ends in the middle of a tag. -/
theorem lex_seam_of_dangling :
    (Text.IsClosed "b[ ]x" ∧
      lex ("b[ ]x" ++ "[/é]") = lex "b[ ]x" ++ (lex "[/é]").map (moved "b[ ]x".utf8ByteSize)) ∧
    (¬Text.IsClosed "[b]é[q" ∧ ']' ∈ "[r]s]".toList ∧ ∃ head inside before rest,
      Text.LeavesOpen "[b]é[q" head inside ∧ "[r]s]" = before ++ "]" ++ rest ∧
        lex ("[b]é[q" ++ "[r]s]") =
          lex "[b]é[q" ++ (ofSpan? head.utf8ByteSize (inside ++ before).toList).toList ++
            (lex rest).map (moved ("[b]é[q" ++ before ++ "]").utf8ByteSize)) ∧
    lex "[b]" = [⟨"b", "", "[b]", 0, 3, false⟩] := by
  have hlast : (Segment.cut "b[ ]x".toList).getLast? = some (.gap ['x']) := by decide +kernel
  have hclosed := (Text.isClosed_iff hlast).mpr (by decide)
  have hdangles : (Segment.cut "[b]é[q".toList).getLast? = some (.gap ['é', '[', 'q']) := by
    decide +kernel
  have hopen : ¬Text.IsClosed "[b]é[q" := by
    rw [Text.isClosed_iff hdangles]
    decide
  have hbracket : ']' ∈ "[r]s]".toList := by decide
  have htag : (⟨"b", "", "[b]", 0, 3, false⟩ : Tag) ∈ lex "[b]é[q" := by decide +kernel
  obtain ⟨-, hdangling, htags⟩ := lex_seam "[b]é[q" "[r]s]"
  obtain ⟨head, inside, hleaves, -, hspan⟩ := hdangling hopen
  obtain ⟨before, rest, hsplit, -, hlex⟩ := hspan hbracket
  exact ⟨⟨hclosed, (lex_seam "b[ ]x" "[/é]").1 hclosed⟩,
    ⟨hopen, hbracket, head, inside, before, rest, hleaves, hsplit, hlex⟩, htags _ htag⟩

end Tag
end TextReveal
