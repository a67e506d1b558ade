import Mathlib.Data.List.TakeWhile
import TextReveal.Proofs.Pieces
/-!
The grammar of tags. Brackets cut a text in one way only, and the tags of a text are the spans of
that cut whose names are not blank.
-/
namespace TextReveal

/-- A text cut at its brackets: spans, each as the gap before it and what is between its brackets,
and the gap behind the last of them. -/
structure Cut where
  spans : List (List Char × List Char)
  last : List Char

namespace Cut

def chars (c : Cut) : List Char :=
  c.spans.flatMap (fun s => s.1 ++ '[' :: s.2 ++ [']']) ++ c.last

/-- Nothing opens before its span does, a span ends with the first bracket that closes it, and
nothing that opens in the last gap is closed. -/
structure IsProper (c : Cut) : Prop where
  gap : ∀ s ∈ c.spans, '[' ∉ s.1
  inner : ∀ s ∈ c.spans, ']' ∉ s.2
  last : ∀ before after, c.last = before ++ '[' :: after → ']' ∉ after

def segments (c : Cut) : List Segment :=
  c.spans.flatMap (fun s => [.gap s.1, .span s.2]) ++ [.gap c.last]

section
variable (gap inner : List Char) (spans : List (List Char × List Char)) (last : List Char)

theorem chars_cons : chars ⟨(gap, inner) :: spans, last⟩ =
    gap ++ '[' :: inner ++ ']' :: chars ⟨spans, last⟩ := by
  simp [chars]

theorem segments_cons : segments ⟨(gap, inner) :: spans, last⟩ =
    .gap gap :: .span inner :: segments ⟨spans, last⟩ :=
  rfl

end

end Cut

namespace Segment
variable {a : Char} {s rest : List Char}

theorem all_ne_of_notMem (h : a ∉ s) : ∀ c ∈ s, decide (c ≠ a) = true :=
  fun _ hc => decide_eq_true (ne_of_mem_of_not_mem hc h)

theorem takeWhile_append_cons (h : a ∉ s) : (s ++ a :: rest).takeWhile (· ≠ a) = s := by
  rw [List.takeWhile_append_of_pos (all_ne_of_notMem h)]
  simp

theorem dropWhile_append_cons (h : a ∉ s) : (s ++ a :: rest).dropWhile (· ≠ a) = a :: rest := by
  rw [List.dropWhile_append_of_pos (all_ne_of_notMem h)]
  simp

/-- The first span of a text, and what is behind it. -/
theorem cut_span {gap inner : List Char} (hgap : '[' ∉ gap) (hinner : ']' ∉ inner)
    (rest : List Char) :
    cut (gap ++ '[' :: inner ++ ']' :: rest) = .gap gap :: .span inner :: cut rest := by
  rw [List.append_assoc, List.cons_append, cut]
  split
  · rename_i hopen
    rw [dropWhile_append_cons hgap] at hopen
    cases hopen
  · rename_i inside hopen
    rw [dropWhile_append_cons hgap, List.cons.injEq] at hopen
    obtain ⟨-, rfl⟩ := hopen
    split
    · rename_i hclose
      rw [dropWhile_append_cons hinner] at hclose
      cases hclose
    · rename_i hclose
      rw [dropWhile_append_cons hinner, List.cons.injEq] at hclose
      obtain ⟨-, rfl⟩ := hclose
      rw [takeWhile_append_cons hgap, takeWhile_append_cons hinner]

/-- A text with a bracket that opens first, cut there. -/
theorem eq_append_of_dropWhile {b : Char} (h : s.dropWhile (· ≠ a) = b :: rest) :
    s = s.takeWhile (· ≠ a) ++ a :: rest ∧ a ∉ s.takeWhile (· ≠ a) := by
  obtain rfl : b = a := eq_of_dropWhile_eq_cons h
  refine ⟨?_, fun hb => ?_⟩
  · rw [← h, List.takeWhile_append_dropWhile]
  · simpa using List.mem_takeWhile_imp hb

/-- A text in which nothing is opened and closed. -/
theorem cut_last (h : ∀ before after, s = before ++ '[' :: after → ']' ∉ after) :
    cut s = [.gap s] := by
  rw [cut]
  split
  · rfl
  · rename_i inside hopen
    have hnone : inside.dropWhile (· ≠ ']') = [] := by
      rw [List.dropWhile_eq_nil_iff]
      exact all_ne_of_notMem (h _ _ (eq_append_of_dropWhile hopen).1)
    split
    · rfl
    · rename_i hclose
      rw [hnone] at hclose
      cases hclose

end Segment

namespace Cut

theorem IsProper.tail {s : List Char × List Char} {spans : List (List Char × List Char)}
    {last : List Char} (h : IsProper ⟨s :: spans, last⟩) : IsProper ⟨spans, last⟩ :=
  ⟨fun s hs => h.gap s (List.mem_cons_of_mem _ hs),
    fun s hs => h.inner s (List.mem_cons_of_mem _ hs), h.last⟩

/-- Before the last gap may stand what opens nothing. -/
theorem IsProper.last_append {c : Cut} (h : c.IsProper) {before : List Char}
    (hbefore : '[' ∉ before) (ahead after : List Char)
    (hsplit : before ++ c.last = ahead ++ '[' :: after) : ']' ∉ after := by
  obtain ⟨between, -, hlater⟩ | ⟨between, hearlier, hlater⟩ := List.append_eq_append_iff.mp hsplit
  · exact h.last between after hlater
  · cases between with
    | nil => exact h.last [] after hlater.symm
    | cons c between =>
      obtain rfl : '[' = c := (List.cons.inj hlater).1
      exact absurd (by rw [hearlier]; simp) hbefore

theorem IsProper.cut_chars {c : Cut} (h : c.IsProper) : Segment.cut c.chars = c.segments := by
  obtain ⟨spans, last⟩ := c
  induction spans with
  | nil => exact Segment.cut_last h.last
  | cons s spans ih =>
    rw [chars_cons, segments_cons, ← ih h.tail]
    exact Segment.cut_span (h.gap s List.mem_cons_self) (h.inner s List.mem_cons_self) _

theorem exists_isProper (s : List Char) : ∃ c : Cut, c.IsProper ∧ c.chars = s := by
  fun_induction Segment.cut s with
  | case1 s hopen =>
    refine ⟨⟨[], s⟩, ⟨by simp, by simp, fun before after hs => ?_⟩, rfl⟩
    rw [List.dropWhile_eq_nil_iff] at hopen
    simpa using hopen '[' (by rw [show s = before ++ '[' :: after from hs]; simp)
  | case2 s b inside hopen hclose =>
    obtain ⟨hsplit, hfirst⟩ := Segment.eq_append_of_dropWhile hopen
    refine ⟨⟨[], s⟩, ⟨by simp, by simp, fun before after hs hmem => ?_⟩, rfl⟩
    rw [List.dropWhile_eq_nil_iff] at hclose
    -- Whatever opens in `s` opens with the first bracket or behind it, and nothing closes there.
    have hinside : ']' ∈ inside := by
      rw [hsplit] at hs
      obtain ⟨between, -, hlater⟩ | ⟨between, hearlier, hlater⟩ :=
        List.append_eq_append_iff.mp hs
      · cases between with
        | nil => rwa [(List.cons.inj hlater).2]
        | cons c between => rw [(List.cons.inj hlater).2]; simp [hmem]
      · cases between with
        | nil => rwa [← (List.cons.inj hlater).2]
        | cons c between =>
          obtain rfl : '[' = c := (List.cons.inj hlater).1
          exact absurd (by rw [hearlier]; simp) hfirst
    simpa using hclose ']' hinside
  | case3 s b inside hopen b' rest hclose ih =>
    obtain ⟨hopens, hgap⟩ := Segment.eq_append_of_dropWhile hopen
    obtain ⟨hcloses, hinner⟩ := Segment.eq_append_of_dropWhile hclose
    obtain ⟨⟨spans, last⟩, hc, hrest⟩ := ih
    refine ⟨⟨(s.takeWhile (· ≠ '['), inside.takeWhile (· ≠ ']')) :: spans, last⟩, ⟨?_, ?_, hc.last⟩,
      ?_⟩
    · exact List.forall_mem_cons.mpr ⟨hgap, hc.gap⟩
    · exact List.forall_mem_cons.mpr ⟨hinner, hc.inner⟩
    · rw [chars_cons, hrest, List.append_assoc, List.cons_append, ← hcloses, ← hopens]

/-- Different cuts have different segments. -/
theorem segments_injective : Function.Injective segments := by
  rintro ⟨spans, last⟩ ⟨spans', last'⟩ h
  induction spans generalizing spans' with
  | nil =>
    cases spans' with
    | nil => simpa [segments] using h
    | cons s spans' => simp [segments] at h
  | cons s spans ih =>
    cases spans' with
    | nil => simp [segments] at h
    | cons s' spans' =>
      obtain ⟨gap, inner⟩ := s
      obtain ⟨gap', inner'⟩ := s'
      simp only [segments_cons, List.cons.injEq, Segment.gap.injEq, Segment.span.injEq] at h
      obtain ⟨rfl, rfl, hrest⟩ := h
      cases ih _ hrest
      rfl

theorem IsProper.unique {c c' : Cut} (h : c.IsProper) (h' : c'.IsProper)
    (hchars : c.chars = c'.chars) : c = c' :=
  segments_injective (by rw [← h.cut_chars, hchars, h'.cut_chars])

end Cut

namespace Tag

/-- How the text between two brackets reads: its name, its parameter, and whether it closes. -/
inductive Reads : List Char → List Char → List Char → Bool → Prop
  | closing (name : List Char) : Reads ('/' :: name) name [] true
  | bare {name : List Char} (hopens : name.head? ≠ some '/') (hbare : '=' ∉ name) :
    Reads name name [] false
  | parameter {name : List Char} (parameter : List Char) (hopens : name.head? ≠ some '/')
    (hbare : '=' ∉ name) : Reads (name ++ '=' :: parameter) name parameter false

/-- The tags of spans behind a text, from left to right. A span has one unless its name is blank. -/
inductive Lexes : List Char → List (List Char × List Char) → List Tag → Prop
  | nil {before : List Char} : Lexes before [] []
  | named {before gap inner name parameter : List Char} {closing : Bool}
    {rest : List (List Char × List Char)} {tags : List Tag}
    (hreads : Reads inner name parameter closing) (hname : ∃ c ∈ name, Text.isBlank c = false)
    (h : Lexes (before ++ gap ++ '[' :: inner ++ [']']) rest tags) :
    Lexes before ((gap, inner) :: rest)
      ({ name := String.ofList (Text.lower (Text.trim name))
         parameter := String.ofList parameter
         fullText := String.ofList ('[' :: inner ++ [']'])
         start := (String.ofList (before ++ gap)).utf8ByteSize
         stop := (String.ofList (before ++ gap ++ '[' :: inner ++ [']'])).utf8ByteSize
         closing } :: tags)
  | blank {before gap inner name parameter : List Char} {closing : Bool}
    {rest : List (List Char × List Char)} {tags : List Tag}
    (hreads : Reads inner name parameter closing) (hname : ∀ c ∈ name, Text.isBlank c = true)
    (h : Lexes (before ++ gap ++ '[' :: inner ++ [']']) rest tags) :
    Lexes before ((gap, inner) :: rest) tags

variable {before gap inner name parameter : List Char} {closing : Bool}

theorem parts_of_opens (h : inner.head? ≠ some '/') :
    parts inner = (inner.takeWhile (· ≠ '='), (inner.dropWhile (· ≠ '=')).drop 1, false) := by
  unfold parts
  split
  · exact absurd rfl h
  · rfl

theorem Reads.parts_eq (h : Reads inner name parameter closing) :
    parts inner = (name, parameter, closing) := by
  cases h with
  | closing => rfl
  | bare hopens hbare =>
    have hall := Segment.all_ne_of_notMem hbare
    rw [parts_of_opens hopens, List.takeWhile_eq_self_iff.mpr hall,
      List.dropWhile_eq_nil_iff.mpr hall]
    rfl
  | parameter parameter hopens hbare =>
    rw [parts_of_opens, Segment.takeWhile_append_cons hbare, Segment.dropWhile_append_cons hbare]
    · rfl
    · cases name with
      | nil => simp
      | cons c name => exact hopens

theorem exists_reads (inner : List Char) :
    ∃ name parameter closing, Reads inner name parameter closing := by
  by_cases hopens : inner.head? = some '/'
  · obtain ⟨name, rfl⟩ := List.head?_eq_some_iff.mp hopens
    exact ⟨name, [], true, .closing name⟩
  · cases hvalue : inner.dropWhile (· ≠ '=') with
    | nil =>
      rw [List.dropWhile_eq_nil_iff] at hvalue
      refine ⟨inner, [], false, .bare hopens fun hmem => ?_⟩
      simpa using hvalue '=' hmem
    | cons c parameter =>
      obtain ⟨hsplit, hbare⟩ := Segment.eq_append_of_dropWhile hvalue
      refine ⟨inner.takeWhile (· ≠ '='), parameter, false, ?_⟩
      have hname : (inner.takeWhile (· ≠ '=')).head? ≠ some '/' := by
        intro hslash
        rw [hsplit, List.head?_append, hslash] at hopens
        exact hopens rfl
      have hreads := Reads.parameter parameter hname hbare
      rwa [← hsplit] at hreads

end Tag

theorem Text.trim_eq_nil_iff {s : List Char} : trim s = [] ↔ ∀ c ∈ s, isBlank c = true := by
  have hend : trim s = [] ↔ ∀ c ∈ trimStart s, isBlank c = true := by
    rw [trim, trimEnd, List.reverse_eq_nil_iff, List.dropWhile_eq_nil_iff]
    simp
  rw [hend]
  constructor
  · intro hrest c hc
    rw [← List.takeWhile_append_dropWhile (p := isBlank) (l := s), List.mem_append] at hc
    obtain hfirst | hlater := hc
    · exact List.mem_takeWhile_imp hfirst
    · exact hrest c hlater
  · intro hall c hc
    exact hall c ((List.dropWhile_suffix _).subset hc)

namespace Tag
variable {before gap inner name parameter : List Char} {closing : Bool} {start : Nat}

theorem Reads.ofSpan?_of_blank (h : Reads inner name parameter closing)
    (hname : ∀ c ∈ name, Text.isBlank c = true) : ofSpan? start inner = none := by
  simp [ofSpan?, h.parts_eq, Text.trim_eq_nil_iff.mpr hname]

theorem Reads.ofSpan?_of_named (h : Reads inner name parameter closing)
    (hname : ∃ c ∈ name, Text.isBlank c = false) :
    ofSpan? start inner = some {
      name := String.ofList (Text.lower (Text.trim name))
      parameter := String.ofList parameter
      fullText := String.ofList ('[' :: inner ++ [']'])
      start
      stop := start + (Segment.span inner).width
      closing } := by
  have hne : Text.trim name ≠ [] := by
    obtain ⟨c, hc, hblank⟩ := hname
    intro hnil
    simp [Text.trim_eq_nil_iff.mp hnil c hc] at hblank
  simp [ofSpan?, h.parts_eq, hne, Segment.chars]

theorem Lexes.eq_ofSegments {spans : List (List Char × List Char)} {tags : List Tag}
    (h : Lexes before spans tags) (last : List Char) :
    tags = ofSegments (Text.width before) (Cut.segments ⟨spans, last⟩) := by
  have hcons (before gap inner : List Char) (rest : List (List Char × List Char)) :
      ofSegments (Text.width before) (Cut.segments ⟨(gap, inner) :: rest, last⟩) =
        (ofSpan? (Text.width (before ++ gap)) inner).toList ++
          ofSegments (Text.width (before ++ gap ++ '[' :: inner ++ [']']))
            (Cut.segments ⟨rest, last⟩) := by
    have hspan : before ++ gap ++ '[' :: inner ++ [']'] =
        before ++ gap ++ (Segment.span inner).chars := List.append_assoc ..
    rw [hspan, Text.width_append (before ++ gap), Text.width_append before gap]
    rfl
  induction h with
  | nil => rfl
  | named hreads hname h ih =>
    rw [hcons, hreads.ofSpan?_of_named hname, ← ih, ← Text.width_eq, ← Text.width_eq, Segment.width,
      ← Text.width_append, List.append_assoc]
    rfl
  | blank hreads hname h ih => rw [hcons, hreads.ofSpan?_of_blank hname, ← ih]; rfl

theorem exists_lexes (before : List Char) (spans : List (List Char × List Char)) :
    ∃ tags, Lexes before spans tags := by
  induction spans generalizing before with
  | nil => exact ⟨[], .nil⟩
  | cons s spans ih =>
    obtain ⟨gap, inner⟩ := s
    obtain ⟨name, parameter, closing, hreads⟩ := exists_reads inner
    obtain ⟨tags, htags⟩ := ih (before ++ gap ++ '[' :: inner ++ [']'])
    by_cases hname : ∀ c ∈ name, Text.isBlank c = true
    · exact ⟨tags, .blank hreads hname htags⟩
    · exact ⟨_, .named hreads (by simpa using hname) htags⟩

/-- The tags of a proper cut are found. -/
theorem lex_eq_iff {text : String} {c : Cut} (h : c.IsProper) (hchars : c.chars = text.toList)
    {tags : List Tag} : lex text = tags ↔ Lexes [] c.spans tags := by
  have hcut : lex text = ofSegments 0 c.segments := by rw [lex, ← hchars, h.cut_chars]
  constructor
  · rintro rfl
    obtain ⟨tags, htags⟩ := exists_lexes [] c.spans
    rw [hcut]
    exact htags.eq_ofSegments c.last ▸ htags
  · intro htags
    rw [hcut, htags.eq_ofSegments c.last]
    rfl

end Tag

namespace Piece

theorem Placed.pairwise {position : Nat} {pieces : List Piece} (h : Placed position pieces) :
    (pieces.filterMap tag?).Pairwise fun t u => t.start < u.start ∧ t.stop ≤ u.start := by
  induction h using Placed.along with
  | nil => exact .nil
  | plain c rest _ _ ih => exact ih
  | tag t rest hlies _ hstarts ih =>
    refine .cons (fun u hu => ?_) ih
    exact ⟨hlies.start_lt_stop.trans_le (hstarts u hu), hstarts u hu⟩

/-- A tag stands where it says. -/
theorem Placed.exists_append {position : Nat} {pieces : List Piece} (h : Placed position pieces)
    {t : Tag} (ht : t ∈ pieces.filterMap tag?) :
    ∃ before after, pieces.flatMap chars = before ++ t.fullText.toList ++ after ∧
      t.start = position + Text.width before ∧
      t.stop = position + Text.width (before ++ t.fullText.toList) := by
  induction h using Placed.along with
  | nil => simp at ht
  | plain c rest _ _ ih =>
    obtain ⟨before, after, hchars, hstart, hstop⟩ := ih ht
    refine ⟨c :: before, after, ?_, ?_, ?_⟩
    · simp [chars, hchars]
    · rw [hstart, Text.width, Nat.add_assoc]
    · rw [hstop, List.cons_append, Text.width, Nat.add_assoc]
  | tag u rest hlies _ _ ih =>
    obtain rfl | ht := List.mem_cons.mp ht
    · exact ⟨[], rest.flatMap chars, rfl, hlies.start, hlies.stop⟩
    · obtain ⟨before, after, hchars, hstart, hstop⟩ := ih ht
      rw [hlies.stop] at hstart hstop
      refine ⟨u.fullText.toList ++ before, after, ?_, ?_, ?_⟩
      · simp [chars, hchars]
      · rw [hstart, Text.width_append, Nat.add_assoc]
      · rw [hstop, List.append_assoc, Text.width_append u.fullText.toList, Nat.add_assoc]

end Piece

/-- The byte positions of a tag lie between characters, and what is between them is the tag. -/
theorem Tag.slice_of_mem_lex {text : String} {t : Tag} (h : t ∈ Tag.lex text) :
    (⟨t.start⟩ : String.Pos.Raw).IsValid text ∧ (⟨t.stop⟩ : String.Pos.Raw).IsValid text ∧
      text.toByteArray.extract t.start t.stop = t.fullText.toByteArray := by
  rw [← Piece.tags_cut] at h
  obtain ⟨before, after, hchars, hstart, hstop⟩ := (Piece.placed_cut text).exists_append h
  rw [Piece.chars_cut] at hchars
  have htext : text = String.ofList before ++ t.fullText ++ String.ofList after := by
    rw [← String.toList_inj]
    simp [hchars]
  rw [Nat.zero_add, Text.width_eq] at hstart hstop
  rw [String.ofList_append, String.ofList_toList] at hstop
  refine ⟨?_, ?_, ?_⟩
  · rw [String.Pos.Raw.isValid_iff_exists_append]
    refine ⟨String.ofList before, t.fullText ++ String.ofList after, ?_, ?_⟩
    · rw [htext, String.append_assoc]
    · rw [hstart]
      rfl
  · rw [String.Pos.Raw.isValid_iff_exists_append]
    refine ⟨String.ofList before ++ t.fullText, String.ofList after, htext, ?_⟩
    rw [hstop]
    rfl
  · have hsize : t.stop =
        (String.ofList before).toByteArray.size + t.fullText.toByteArray.size := by
      rw [hstop, String.utf8ByteSize_append]
      rfl
    rw [htext, String.append_assoc, String.toByteArray_append, String.toByteArray_append, hsize,
      hstart, ← Nat.add_zero (String.utf8ByteSize _)]
    exact ByteArray.extract_append_size_add.trans (ByteArray.extract_append_eq_left rfl)

/-- The tags of a text are those that its grammar gives it. The text can be cut at its brackets in
one way only, and its tags are the spans of that cut whose names are not blank, each with what is
written there and where. -/
theorem Tag.lex_iff_grammar (text : String) :
    (∃! c : Cut, c.IsProper ∧ c.chars = text.toList) ∧
    (∀ tags, Tag.lex text = tags ↔
      ∃ c : Cut, c.IsProper ∧ c.chars = text.toList ∧ Lexes [] c.spans tags) ∧
    (Tag.lex text).Pairwise (fun t u => t.start < u.start ∧ t.stop ≤ u.start) ∧
    ∀ t ∈ Tag.lex text, (⟨t.start⟩ : String.Pos.Raw).IsValid text ∧
      (⟨t.stop⟩ : String.Pos.Raw).IsValid text ∧
      text.toByteArray.extract t.start t.stop = t.fullText.toByteArray := by
  obtain ⟨c, hc, hchars⟩ := Cut.exists_isProper text.toList
  refine ⟨⟨c, ⟨hc, hchars⟩, fun c' h' => ?_⟩, fun tags => ⟨fun htags => ?_, ?_⟩, ?_, fun t ht => ?_⟩
  · exact h'.1.unique hc (h'.2.trans hchars.symm)
  · exact ⟨c, hc, hchars, (lex_eq_iff hc hchars).mp htags⟩
  · rintro ⟨c', hc', hchars', htags⟩
    exact (lex_eq_iff hc' hchars').mpr htags
  · rw [← Piece.tags_cut]
    exact (Piece.placed_cut text).pairwise
  · exact slice_of_mem_lex ht

/-- A span without a name, and a bracket inside a span. -/
theorem Tag.lex_iff_grammar_of_bracket :
    Tag.lex "é[ ][[B=x=y]]" = [⟨"[b", "x=y", "[[B=x=y]", 5, 13, false⟩] ∧
      (∃ c : Cut, c.IsProper ∧ c.chars = "é[ ][[B=x=y]]".toList ∧
        Lexes [] c.spans [⟨"[b", "x=y", "[[B=x=y]", 5, 13, false⟩]) ∧
      "é[ ][[B=x=y]]".toByteArray.extract 5 13 = "[[B=x=y]".toByteArray := by
  have hlex : Tag.lex "é[ ][[B=x=y]]" = [⟨"[b", "x=y", "[[B=x=y]", 5, 13, false⟩] := by
    decide +kernel
  obtain ⟨-, htags, -, hslices⟩ := lex_iff_grammar "é[ ][[B=x=y]]"
  have hslice := hslices ⟨"[b", "x=y", "[[B=x=y]", 5, 13, false⟩ (by rw [hlex]; simp)
  exact ⟨hlex, (htags _).mp hlex, hslice.2.2⟩

end TextReveal
