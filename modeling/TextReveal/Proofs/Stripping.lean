import Mathlib.Algebra.GroupWithZero.Nat
import TextReveal.Proofs.Grammar
import TextReveal.Proofs.Pacing
import TextReveal.Proofs.Rendering
import TextReveal.Strip
/-!
Stripped texts. What is left of a text is the text without the tags that go, and where it is a
matter of names which tags go, no brackets meet that were apart before.
-/
namespace TextReveal

namespace Piece

/-- What is left of a piece once the tags that go are gone. -/
def kept (goes : Tag → Bool) : Piece → List Char
  | plain c => [c]
  | tag t => if goes t then [] else t.fullText.toList

@[simp] theorem kept_plain (goes : Tag → Bool) (cs : List Char) :
    (cs.map plain).flatMap (kept goes) = cs := by
  induction cs with
  | nil => rfl
  | cons c cs ih => simp [kept, ih]

end Piece

namespace Registry
variable {r : Registry} {text : String}

/-- Whether it is a matter of names alone which tags go. -/
def StripsByName (r : Registry) : Prop :=
  ∀ name h, r.get? name = some h →
    ∀ text start text' start', h.strips text start = h.strips text' start'

theorem keep_eq_kept (start : Nat) (segments : List Segment) :
    r.keep text start segments =
      (Piece.ofSegments start segments).flatMap (Piece.kept (r.strips text)) := by
  induction segments generalizing start with
  | nil => rfl
  | cons s rest ih =>
    rw [keep, ih, Piece.ofSegments, List.flatMap_append]
    congr 1
    cases s with
    | gap cs => exact (Piece.kept_plain _ cs).symm
    | span inner =>
      rw [dropsSegment, Piece.ofSegment]
      cases ht : Tag.ofSpan? start inner with
      | none => simp [Piece.kept_plain]
      | some t => simp [Piece.kept, Tag.fullText_of_ofSpan? ht]

theorem toList_strip (r : Registry) (text : String) :
    (r.strip text).toList = (Piece.cut text).flatMap (Piece.kept (r.strips text)) := by
  rw [strip, String.toList_ofList, keep_eq_kept]
  rfl

end Registry

theorem Text.map_fst_placed (position : Nat) (cs : List Char) :
    (placed position cs).map Prod.fst = cs := by
  induction cs generalizing position with
  | nil => rfl
  | cons c cs ih => rw [placed, List.map_cons, ih]

theorem Piece.Placed.normalize_name {position : Nat} {pieces : List Piece}
    (h : Placed position pieces) {t : Tag} (ht : t ∈ pieces.filterMap tag?) :
    Name.normalize t.name = t.name := by
  induction h using Placed.along with
  | nil => simp at ht
  | plain c rest _ _ ih => exact ih ht
  | tag u rest hlies _ _ ih =>
    obtain rfl | ht := List.mem_cons.mp ht
    · exact hlies.normal
    · exact ih ht

theorem Tag.normalize_name {text : String} {t : Tag} (h : t ∈ lex text) :
    Name.normalize t.name = t.name := by
  rw [← Piece.tags_cut] at h
  exact (Piece.placed_cut text).normalize_name h

/-- Pieces that show what they spell. -/
theorem Piece.foldl_shown {policy : UnknownTags} {pieces : List Piece} {before : String}
    (h : ∀ p ∈ pieces, p.isClear = false ∧ p.shown policy = String.ofList p.chars) :
    pieces.foldl (fun shown p => if p.isClear then "" else shown ++ p.shown policy) before =
      before ++ String.ofList (pieces.flatMap chars) := by
  induction pieces generalizing before with
  | nil => exact String.append_empty.symm
  | cons p rest ih =>
    obtain ⟨⟨hclear, hshown⟩, hrest⟩ := List.forall_mem_cons.mp h
    rw [List.foldl_cons, hclear, hshown, if_neg Bool.false_ne_true, ih hrest, List.flatMap_cons,
      String.ofList_append, String.append_assoc]

theorem Tag.any_covers_eq_false {goes : Tag → Bool} {tags : List Tag} {i : Nat}
    (h : ∀ t ∈ tags, t.stop ≤ i ∨ i < t.start) :
    (tags.any fun t => goes t && t.covers i) = false := by
  rw [List.any_eq_false]
  intro t ht hcovers
  simp only [covers, Bool.and_eq_true, decide_eq_true_eq] at hcovers
  have := h t ht
  omega

/-- The characters outside the tags that go are the characters of the pieces that stay. -/
theorem Piece.Placed.uncovered {goes : Tag → Bool} {position : Nat} {pieces : List Piece}
    (h : Placed position pieces) (before : List Tag) (hbefore : ∀ t ∈ before, t.stop ≤ position) :
    ((Text.placed position (pieces.flatMap chars)).filter fun p =>
      !(before ++ pieces.filterMap tag?).any fun t => goes t && t.covers p.2).map Prod.fst =
        pieces.flatMap (kept goes) := by
  induction h using Placed.along generalizing before with
  | nil => rfl
  | @plain position c rest _ hstarts ih =>
    have hfree : ((before ++ rest.filterMap tag?).any
        fun t => goes t && t.covers position) = false := by
      rw [List.any_append, Tag.any_covers_eq_false fun t ht => .inl (hbefore t ht),
        Tag.any_covers_eq_false fun t ht => .inr (hstarts t ht)]
      rfl
    have hlater := ih before fun t ht => (hbefore t ht).trans (Nat.le_add_right ..)
    simp only [List.flatMap_cons, chars, List.singleton_append, Text.placed, kept,
      List.filterMap_cons, tag?]
    rw [List.filter_cons_of_pos (by simp only [hfree, Bool.not_false]), List.map_cons, hlater]
  | @tag position t rest hlies _ hstarts ih =>
    have hstart := hlies.start
    have hstop := hlies.stop
    have hwithin : ∀ p ∈ Text.placed position t.fullText.toList,
        ((before ++ t :: rest.filterMap tag?).any fun u => goes u && u.covers p.2) = goes t := by
      rintro ⟨c, i⟩ hi
      have hi := Text.mem_placed hi
      have hcovers : t.covers i = true := by
        simp only [Tag.covers, Bool.and_eq_true, decide_eq_true_eq]
        omega
      rw [List.any_append, List.any_cons, hcovers,
        Tag.any_covers_eq_false fun u hu => .inl ((hbefore u hu).trans hi.1),
        Tag.any_covers_eq_false fun u hu => .inr ?_]
      · simp
      · have := hstarts u hu
        omega
    have hlater := ih (before ++ [t]) (by
      intro u hu
      obtain hu | hu := List.mem_append.mp hu
      · have := hbefore u hu
        omega
      · exact Nat.le_of_eq (by rw [List.mem_singleton.mp hu]))
    rw [List.append_assoc, List.singleton_append] at hlater
    simp only [List.flatMap_cons, chars, Text.placed_append, ← hstop, kept, List.filterMap_cons,
      tag?, List.filter_append, List.map_append, hlater]
    congr 1
    rw [List.filter_congr fun p hp => congrArg not (hwithin p hp)]
    cases goes t with
    | true => simp
    | false => simp [Text.map_fst_placed]

/-- Where no tag goes, all stays. -/
theorem Registry.strip_eq_self {r : Registry} {text : String}
    (h : ∀ t ∈ Tag.lex text, r.strips text t = false) : r.strip text = text := by
  have hkept : ∀ p ∈ Piece.cut text, Piece.kept (r.strips text) p = Piece.chars p := by
    intro p hp
    cases p with
    | plain c => rfl
    | tag t =>
      have ht : t ∈ Tag.lex text := by
        rw [← Piece.tags_cut]
        exact List.mem_filterMap.mpr ⟨_, hp, rfl⟩
      simp [Piece.kept, h t ht, Piece.chars]
  rw [← String.toList_inj, toList_strip, List.flatMap_congr hkept, Piece.chars_cut]

namespace Tag

def moved (n : Nat) (t : Tag) : Tag :=
  { t with start := t.start + n, stop := t.stop + n }

theorem length_moved (n : Nat) (t : Tag) : (t.moved n).length = t.length :=
  Nat.add_sub_add_right ..

theorem ofSpan?_add (start n : Nat) (inner : List Char) :
    ofSpan? (start + n) inner = (ofSpan? start inner).map (moved n) := by
  unfold ofSpan?
  simp only
  split
  · rfl
  · rw [Option.map_some, moved, Nat.add_right_comm]

/-- The name of a span is the same wherever it starts. -/
theorem any_ofSpan? (goes : String → Bool) (start : Nat) (inner : List Char) :
    ((ofSpan? start inner).any fun t => goes t.name) =
      (ofSpan? 0 inner).any fun t => goes t.name := by
  rw [← Nat.zero_add start, ofSpan?_add, Option.any_map]
  rfl

theorem length_of_ofSpan? {start : Nat} {inner : List Char} {t : Tag}
    (h : ofSpan? start inner = some t) : t.length = (Segment.span inner).width := by
  rw [length, stop_of_ofSpan? h, start_of_ofSpan? h, Nat.add_sub_cancel_left]

/-- What is left of the tags, each where it comes to stand, when so many bytes have gone before. -/
inductive Sifted (goes : String → Bool) : Nat → List Tag → List Tag → Prop
  | nil {lost : Nat} : Sifted goes lost [] []
  | gone {lost : Nat} {t : Tag} {tags left : List Tag} (hgoes : goes t.name = true)
    (h : Sifted goes (lost + t.length) tags left) : Sifted goes lost (t :: tags) left
  | stays {lost : Nat} {t : Tag} {tags left : List Tag} (hgoes : goes t.name = false)
    (h : Sifted goes lost tags left) : Sifted goes lost (t.moved lost :: tags) (t :: left)

/-- The number of bytes that go before a tag. -/
def lostBefore (goes : Tag → Bool) (tags : List Tag) (t : Tag) : Nat :=
  ((tags.filter fun u => goes u && decide (u.start < t.start)).map length).sum

theorem Sifted.stays_of_mem {goes : String → Bool} {lost : Nat} {tags left : List Tag}
    (h : Sifted goes lost tags left) : ∀ t ∈ left, goes t.name = false := by
  induction h with
  | nil => simp
  | gone hgoes h ih => exact ih
  | stays hgoes h ih => exact List.forall_mem_cons.mpr ⟨hgoes, ih⟩

end Tag

namespace Cut

/-- A cut without the spans whose tags go. The gaps around such a span become one. -/
def sift (goes : String → Bool) (before : List Char) :
    List (List Char × List Char) → List Char → Cut
  | [], last => ⟨[], before ++ last⟩
  | (gap, inner) :: rest, last =>
    if (Tag.ofSpan? 0 inner).any fun t => goes t.name then sift goes (before ++ gap) rest last
    else ⟨(before ++ gap, inner) :: (sift goes [] rest last).spans, (sift goes [] rest last).last⟩

variable {goes : String → Bool} {before last : List Char} {spans : List (List Char × List Char)}

/-- No brackets meet that were apart before. -/
theorem IsProper.sift (h : IsProper ⟨spans, last⟩) (hbefore : '[' ∉ before) :
    (sift goes before spans last).IsProper := by
  induction spans generalizing before with
  | nil => exact ⟨by simp [Cut.sift], by simp [Cut.sift], h.last_append hbefore⟩
  | cons s spans ih =>
    obtain ⟨gap, inner⟩ := s
    have hgap : '[' ∉ before ++ gap := by
      rw [List.mem_append, not_or]
      exact ⟨hbefore, h.gap _ List.mem_cons_self⟩
    rw [Cut.sift]
    split
    · exact ih h.tail hgap
    · have hrest := ih h.tail List.not_mem_nil
      exact ⟨List.forall_mem_cons.mpr ⟨hgap, hrest.gap⟩,
        List.forall_mem_cons.mpr ⟨h.inner (gap, inner) List.mem_cons_self, hrest.inner⟩, hrest.last⟩

theorem chars_sift {r : Registry} {text : String} (hgoes : ∀ t, r.strips text t = goes t.name)
    (start : Nat) : (sift goes before spans last).chars =
      before ++ r.keep text start (segments ⟨spans, last⟩) := by
  induction spans generalizing before start with
  | nil => simp [sift, chars, segments, Registry.keep, Registry.dropsSegment, Segment.chars]
  | cons s spans ih =>
    obtain ⟨gap, inner⟩ := s
    have hdrops : r.dropsSegment text (start + (Segment.gap gap).width) (.span inner) =
        (Tag.ofSpan? 0 inner).any fun t => goes t.name := by
      rw [Registry.dropsSegment, funext hgoes]
      exact Tag.any_ofSpan? goes _ inner
    have hgap : r.dropsSegment text start (.gap gap) = false := rfl
    rw [segments_cons, Registry.keep, Registry.keep, hdrops, hgap, sift]
    split
    · rw [ih (start + (Segment.gap gap).width + (Segment.span inner).width), List.append_assoc]
      rfl
    · rw [chars_cons, ih (start + (Segment.gap gap).width + (Segment.span inner).width)]
      simp [Segment.chars]

/-- The tags of a cut without the spans that go. -/
theorem sifted (before : List Char) (start lost : Nat) : Tag.Sifted goes lost
    (Tag.ofSegments (start + Text.width before + lost) (segments ⟨spans, last⟩))
    (Tag.ofSegments start (sift goes before spans last).segments) := by
  induction spans generalizing before start lost with
  | nil => exact .nil
  | cons s spans ih =>
    obtain ⟨gap, inner⟩ := s
    have hall (start : Nat) (gap : List Char) (c : Cut) :
        Tag.ofSegments start (segments ⟨(gap, inner) :: c.spans, c.last⟩) =
          (Tag.ofSpan? (start + Text.width gap) inner).toList ++
            Tag.ofSegments (start + Text.width gap + (Segment.span inner).width) c.segments := rfl
    have hat : start + Text.width before + lost + Text.width gap =
        start + Text.width (before ++ gap) + lost := by
      rw [Text.width_append]
      omega
    rw [hall _ _ ⟨spans, last⟩, sift, hat, Tag.ofSpan?_add,
      ← Tag.any_ofSpan? goes (start + Text.width (before ++ gap))]
    have hkept : Tag.Sifted goes lost
        (Tag.ofSegments (start + Text.width (before ++ gap) + lost + (Segment.span inner).width)
          (segments ⟨spans, last⟩))
        (Tag.ofSegments (start + Text.width (before ++ gap) + (Segment.span inner).width)
          (sift goes [] spans last).segments) := by
      rw [Nat.add_right_comm _ lost]
      exact ih [] _ lost
    -- A span that goes hands its gap to the next one, and its width is lost from then on.
    cases ht : Tag.ofSpan? (start + Text.width (before ++ gap)) inner with
    | none =>
      rw [if_neg (by simp), hall start (before ++ gap), ht]
      exact hkept
    | some t =>
      cases hgoes : goes t.name with
      | true =>
        have hlength : (t.moved lost).length = (Segment.span inner).width := by
          rw [Tag.length_moved, Tag.length_of_ofSpan? ht]
        rw [if_pos (by simpa using hgoes)]
        refine .gone hgoes ?_
        rw [hlength, Nat.add_assoc (_ + _) lost]
        exact ih _ start _
      | false =>
        rw [if_neg (by simp [hgoes]), hall start (before ++ gap), ht]
        exact .stays hgoes hkept

end Cut

namespace Tag

theorem lostBefore_append {goes : Tag → Bool} {before later : List Tag} {t : Tag}
    (hbefore : ∀ u ∈ before, u.start < t.start) (hlater : ∀ u ∈ later, t.start ≤ u.start) :
    lostBefore goes (before ++ later) t = ((before.filter goes).map length).sum := by
  have hall : (before.filter fun u => goes u && decide (u.start < t.start)) =
      before.filter goes :=
    List.filter_congr fun u hu => by simp [hbefore u hu]
  have hnone : (later.filter fun u => goes u && decide (u.start < t.start)) = [] := by
    rw [List.filter_eq_nil_iff]
    intro u hu
    simp [Nat.not_lt.mpr (hlater u hu)]
  rw [lostBefore, List.filter_append, hall, hnone, List.append_nil]

/-- Each tag that stays has moved by what has gone before it. -/
theorem Sifted.forall₂_moved {goes : String → Bool} {lost : Nat} {tags left : List Tag}
    (h : Sifted goes lost tags left) (before : List Tag)
    (hlost : lost = ((before.filter fun t => goes t.name).map length).sum)
    (hsorted : (before ++ tags).Pairwise fun t u => t.start < u.start) :
    List.Forall₂ (fun t u => t = u.moved (lostBefore (fun t => goes t.name) (before ++ tags) t))
      (tags.filter fun t => !goes t.name) left := by
  induction h generalizing before with
  | nil => exact .nil
  | @gone lost t tags left hgoes h ih =>
    have hrest := ih (before ++ [t]) (by simp [hlost, hgoes]) (by simpa using hsorted)
    rw [List.filter_cons_of_neg (by simp [hgoes])]
    simpa using hrest
  | @stays lost t tags left hgoes h ih =>
    have hname : goes (t.moved lost).name = false := hgoes
    have hsame : ((before ++ [t.moved lost]).filter fun t => goes t.name) =
        before.filter fun t => goes t.name := by simp [hname]
    have hrest := ih (before ++ [t.moved lost]) (by rwa [hsame]) (by simpa using hsorted)
    rw [List.filter_cons_of_pos (by simp [hname])]
    refine .cons ?_ (by simpa using hrest)
    rw [List.pairwise_append, List.pairwise_cons] at hsorted
    obtain ⟨-, ⟨hlater, -⟩, hbefore⟩ := hsorted
    rw [lostBefore_append (fun u hu => hbefore u hu _ List.mem_cons_self) ?_, ← hlost]
    exact List.forall_mem_cons.mpr ⟨Nat.le_refl _, fun u hu => Nat.le_of_lt (hlater u hu)⟩

end Tag

namespace Registry
variable {r : Registry}

theorem StripsByName.exists_goes (h : r.StripsByName) :
    ∃ goes : String → Bool, ∀ text t, r.strips text t = goes t.name := by
  refine ⟨fun name => (r.get? name).any fun handler => handler.strips "" 0, fun text t => ?_⟩
  simp only [strips]
  cases hget : r.get? t.name with
  | none => rfl
  | some handler => exact h _ _ hget text t.start "" 0

/-- The tags of a stripped text are those that stay. -/
theorem sifted_strip {goes : String → Bool} {text : String}
    (hgoes : ∀ t, r.strips text t = goes t.name) :
    Tag.Sifted goes 0 (Tag.lex text) (Tag.lex (r.strip text)) := by
  obtain ⟨⟨spans, last⟩, hproper, hchars⟩ := Cut.exists_isProper text.toList
  have hstrip : (r.strip text).toList = (Cut.sift goes [] spans last).chars := by
    rw [strip, String.toList_ofList, ← hchars, hproper.cut_chars, Cut.chars_sift hgoes 0]
    rfl
  rw [Tag.lex, Tag.lex, hstrip, ← hchars, hproper.cut_chars,
    (hproper.sift List.not_mem_nil).cut_chars]
  exact Cut.sifted [] 0 0

theorem IsBuiltin.strips {hub : HubRef} {name : String} {h : Handler} (hb : IsBuiltin hub name h)
    (text : String) (start : Nat) : h.strips text start = true := by
  cases hb <;> rfl

theorem stripsByName_withBuiltins (hub : HubRef) : (withBuiltins hub).StripsByName := by
  intro name h hget text start text' start'
  have hb := get?_withBuiltins.mp hget
  rw [hb.strips, hb.strips]

/-- A text without tags of built-in handlers is its own final text. -/
theorem buffer_renderInstant {hub : HubRef} {text : String} (speed : Number.Single)
    (h : ∀ t ∈ Tag.lex text, (withBuiltins hub).strips text t = false) :
    (renderInstant (.withBuiltins hub) .literal text (Tag.lex text) speed).context.buffer =
      text := by
  have hshown : ∀ p ∈ Piece.cut text,
      p.isClear = false ∧ p.shown .literal = String.ofList p.chars := by
    intro p hp
    cases p with
    | plain c => exact ⟨rfl, rfl⟩
    | tag t =>
      have ht : t ∈ Tag.lex text := by
        rw [← Piece.tags_cut]
        exact List.mem_filterMap.mpr ⟨_, hp, rfl⟩
      have hnone (handler : Handler) : ¬IsBuiltin hub t.name handler := by
        intro hb
        have hget := get?_withBuiltins.mpr (Tag.normalize_name ht ▸ hb)
        have hstays := h t ht
        simp [strips, hget, hb.strips] at hstays
      obtain ⟨hclear, hshown⟩ := Piece.shown_of_not_isBuiltin hnone .literal
      exact ⟨hclear, hshown.trans String.ofList_toList.symm⟩
  rw [renderInstant_eq_read (keepsToTags_withBuiltins hub),
    Instant.buffer_read (Piece.placed_cut text), Piece.foldl_shown hshown, Piece.chars_cut]
  exact String.empty_append.trans String.ofList_toList

end Registry

/-- Stripping and lexing go together. A stripped text is the text without the tags that are
registered and go, whatever they go by. Where they go by name, as those of the built-in handlers do,
its tags are those that stay, each moved back by what has gone before it; so stripping again changes
nothing, and the built-in handlers have nothing left to do. -/
theorem Registry.lex_strip (r : Registry) (text : String) :
    (r.strip text).toList = ((Text.placed 0 text.toList).filter fun p =>
      !(Tag.lex text).any fun t => r.strips text t && t.covers p.2).map Prod.fst ∧
    (r.StripsByName →
      List.Forall₂ (fun t u => t = u.moved (Tag.lostBefore (r.strips text) (Tag.lex text) t))
        ((Tag.lex text).filter fun t => !r.strips text t) (Tag.lex (r.strip text)) ∧
      r.strip (r.strip text) = r.strip text) ∧
    ∀ hub, (withBuiltins hub).StripsByName ∧ ∀ speed,
      (renderInstant (.withBuiltins hub) .literal ((withBuiltins hub).strip text)
        (Tag.lex ((withBuiltins hub).strip text)) speed).context.buffer =
          (withBuiltins hub).strip text := by
  refine ⟨?_, fun hbyName => ?_, fun hub => ⟨stripsByName_withBuiltins hub, fun speed => ?_⟩⟩
  · rw [toList_strip, ← (Piece.placed_cut text).uncovered [] (by simp), Piece.chars_cut,
      Piece.tags_cut]
    rfl
  · obtain ⟨goes, hgoes⟩ := hbyName.exists_goes
    have hsifted := sifted_strip (hgoes text)
    have hsorted := (Piece.placed_cut text).pairwise
    rw [Piece.tags_cut] at hsorted
    constructor
    · rw [show r.strips text = fun t => goes t.name from funext (hgoes text)]
      exact hsifted.forall₂_moved [] rfl (hsorted.imp And.left)
    · exact strip_eq_self fun t ht => (hgoes _ t).trans (hsifted.stays_of_mem t ht)
  · obtain ⟨goes, hgoes⟩ := (stripsByName_withBuiltins hub).exists_goes
    exact buffer_renderInstant speed fun t ht =>
      (hgoes _ t).trans ((sifted_strip (hgoes text)).stays_of_mem t ht)

/-- Tags that go on both sides of a bracket that nothing closes. -/
theorem Registry.lex_strip_of_bracket :
    (withBuiltins .own).StripsByName ∧
      (withBuiltins .own).strip "[b][[b]é[q][/B]" = "[[b]é[q]" ∧
      List.Forall₂
        (fun t u => t = u.moved (Tag.lostBefore ((withBuiltins .own).strips "[b][[b]é[q][/B]")
          (Tag.lex "[b][[b]é[q][/B]") t))
        [⟨"[b", "", "[[b]", 3, 7, false⟩, ⟨"q", "", "[q]", 9, 12, false⟩] (Tag.lex "[[b]é[q]") ∧
      (withBuiltins .own).strip "[[b]é[q]" = "[[b]é[q]" := by
  have hstrip : (withBuiltins .own).strip "[b][[b]é[q][/B]" = "[[b]é[q]" := by decide +kernel
  have hstays : ((Tag.lex "[b][[b]é[q][/B]").filter fun t =>
      !(withBuiltins .own).strips "[b][[b]é[q][/B]" t) =
        [⟨"[b", "", "[[b]", 3, 7, false⟩, ⟨"q", "", "[q]", 9, 12, false⟩] := by decide +kernel
  obtain ⟨-, hbyName, hbuiltins⟩ := lex_strip (withBuiltins .own) "[b][[b]é[q][/B]"
  obtain ⟨hmoved, hagain⟩ := hbyName (hbuiltins .own).1
  rw [hstrip] at hmoved hagain
  rw [hstays] at hmoved
  exact ⟨(hbuiltins .own).1, hstrip, hmoved, hagain⟩

end TextReveal
