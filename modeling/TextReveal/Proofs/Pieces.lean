import TextReveal.Proofs.Naming
import TextReveal.Walk
/-!
Texts in pieces: their tags, and the characters outside them. The pieces spell the text, and lie
where their tags say, so a pass that goes from tag to tag by position goes from piece to piece.
-/
namespace TextReveal

/-- Widths are numbers of bytes. -/
theorem Text.width_eq (s : List Char) : width s = (String.ofList s).utf8ByteSize := by
  induction s with
  | nil => rfl
  | cons c s ih =>
    rw [width, ih, String.ofList_cons, String.utf8ByteSize_append, String.utf8ByteSize_singleton]

theorem Text.width_append (s rest : List Char) : width (s ++ rest) = width s + width rest := by
  rw [width_eq, width_eq, width_eq, String.ofList_append, String.utf8ByteSize_append]

theorem Text.width_pos {s : List Char} (h : s ≠ []) : 0 < width s := by
  obtain ⟨c, rest, rfl⟩ := List.exists_cons_of_ne_nil h
  exact Nat.add_pos_left c.utf8Size_pos _

namespace Segment

theorem eq_of_dropWhile_eq_cons {a b : Char} {s rest : List Char}
    (h : s.dropWhile (· ≠ a) = b :: rest) : b = a := by
  have hb := List.head?_dropWhile_not (fun c => decide (c ≠ a)) s
  rw [h] at hb
  simpa using hb

/-- Nothing of a text is lost by cutting it. -/
theorem chars_cut (s : List Char) : (cut s).flatMap chars = s := by
  fun_induction cut s with
  | case1 s hopen => simp [chars]
  | case2 s b inside hopen hclose => simp [chars]
  | case3 s b inside hopen b' rest hclose ih =>
    have hb : b = '[' := eq_of_dropWhile_eq_cons hopen
    have hb' : b' = ']' := eq_of_dropWhile_eq_cons hclose
    have hinside : inside.takeWhile (· ≠ ']') ++ ']' :: rest = inside := by
      rw [hb'] at hclose
      rw [← hclose, List.takeWhile_append_dropWhile]
    calc (gap (s.takeWhile (· ≠ '[')) :: span (inside.takeWhile (· ≠ ']')) :: cut rest).flatMap
          chars
        = s.takeWhile (· ≠ '[') ++ ('[' :: (inside.takeWhile (· ≠ ']') ++ ']' :: rest)) := by
          simp [chars, ih]
      _ = s.takeWhile (· ≠ '[') ++ s.dropWhile (· ≠ '[') := by rw [hinside, hopen, hb]
      _ = s := List.takeWhile_append_dropWhile

end Segment

/-- A character that stands for itself, or a tag. -/
inductive Piece where
  | plain (c : Char)
  | tag (t : Tag)
  deriving DecidableEq, Repr

namespace Piece

def chars : Piece → List Char
  | plain c => [c]
  | tag t => t.fullText.toList

def tag? : Piece → Option Tag
  | plain _ => none
  | tag t => some t

/-- The pieces of a segment at `start`. A span with a blank name is no tag. -/
def ofSegment (start : Nat) : Segment → List Piece
  | .gap cs => cs.map plain
  | .span inner =>
    match Tag.ofSpan? start inner with
    | some t => [tag t]
    | none => (Segment.span inner).chars.map plain

def ofSegments (start : Nat) : List Segment → List Piece
  | [] => []
  | s :: rest => ofSegment start s ++ ofSegments (start + s.width) rest

/-- A text cut into its tags and the characters outside them. -/
def cut (text : String) : List Piece :=
  ofSegments 0 (Segment.cut text.toList)

@[simp] theorem flatMap_chars_plain (cs : List Char) : (cs.map plain).flatMap chars = cs := by
  induction cs with
  | nil => rfl
  | cons c cs ih => simp [chars, ih]

@[simp] theorem filterMap_tag?_plain (cs : List Char) : (cs.map plain).filterMap tag? = [] := by
  induction cs with
  | nil => rfl
  | cons c cs ih => simp [tag?]

end Piece

namespace Tag

theorem fullText_of_ofSpan? {start : Nat} {inner : List Char} {t : Tag}
    (h : ofSpan? start inner = some t) : t.fullText.toList = (Segment.span inner).chars := by
  simp only [ofSpan?, Option.ite_none_left_eq_some, Option.some.injEq] at h
  rw [← h.2]
  simp

theorem start_of_ofSpan? {start : Nat} {inner : List Char} {t : Tag}
    (h : ofSpan? start inner = some t) : t.start = start := by
  simp only [ofSpan?, Option.ite_none_left_eq_some, Option.some.injEq] at h
  rw [← h.2]

theorem stop_of_ofSpan? {start : Nat} {inner : List Char} {t : Tag}
    (h : ofSpan? start inner = some t) : t.stop = start + (Segment.span inner).width := by
  simp only [ofSpan?, Option.ite_none_left_eq_some, Option.some.injEq] at h
  rw [← h.2]

theorem exists_ofSpan?_of_mem {start : Nat} {segments : List Segment} {t : Tag}
    (h : t ∈ ofSegments start segments) :
    ∃ start inner, .span inner ∈ segments ∧ ofSpan? start inner = some t := by
  induction segments generalizing start with
  | nil => cases h
  | cons s rest ih =>
    cases s with
    | gap cs =>
      obtain ⟨start, inner, hmem, hspan⟩ := ih h
      exact ⟨start, inner, List.mem_cons_of_mem _ hmem, hspan⟩
    | span inner =>
      obtain h | h := List.mem_append.mp h
      · exact ⟨start, inner, List.mem_cons_self, Option.mem_toList.mp h⟩
      · obtain ⟨start, inner, hmem, hspan⟩ := ih h
        exact ⟨start, inner, List.mem_cons_of_mem _ hmem, hspan⟩

end Tag

namespace Piece

theorem chars_ofSegment (start : Nat) (s : Segment) :
    (ofSegment start s).flatMap chars = s.chars := by
  cases s with
  | gap cs => simp [ofSegment, Segment.chars]
  | span inner =>
    rw [ofSegment]
    split
    next t ht => simpa [chars] using Tag.fullText_of_ofSpan? ht
    next => exact flatMap_chars_plain _

theorem chars_ofSegments (start : Nat) (segments : List Segment) :
    (ofSegments start segments).flatMap chars = segments.flatMap Segment.chars := by
  induction segments generalizing start with
  | nil => rfl
  | cons s rest ih =>
    rw [ofSegments, List.flatMap_append, chars_ofSegment, ih, List.flatMap_cons]

theorem tags_ofSegments (start : Nat) (segments : List Segment) :
    (ofSegments start segments).filterMap tag? = Tag.ofSegments start segments := by
  induction segments generalizing start with
  | nil => rfl
  | cons s rest ih =>
    rw [ofSegments, List.filterMap_append, ih]
    cases s with
    | gap cs => rw [ofSegment, filterMap_tag?_plain, List.nil_append, Tag.ofSegments]; rfl
    | span inner =>
      rw [ofSegment, Tag.ofSegments]
      cases Tag.ofSpan? start inner with
      | none => rw [filterMap_tag?_plain]; rfl
      | some t => rfl

/-- The pieces of a text spell it. -/
theorem chars_cut (text : String) : (cut text).flatMap chars = text.toList := by
  rw [cut, chars_ofSegments, Segment.chars_cut]

/-- The pieces of a text hold its tags. -/
theorem tags_cut (text : String) : (cut text).filterMap tag? = Tag.lex text :=
  tags_ofSegments 0 _

/-- Pieces from `position` on that lie where their tags say, each tag with a name in normal form. -/
def Placed : Nat → List Piece → Prop
  | _, [] => True
  | position, plain c :: rest => Placed (position + c.utf8Size) rest
  | position, tag t :: rest =>
    t.start = position ∧ t.stop = position + Text.width t.fullText.toList ∧
      t.fullText.toList ≠ [] ∧ Name.normalize t.name = t.name ∧ Placed t.stop rest

theorem Placed.append_plain {position : Nat} {cs : List Char} {rest : List Piece}
    (h : Placed (position + Text.width cs) rest) : Placed position (cs.map plain ++ rest) := by
  induction cs generalizing position with
  | nil => exact h
  | cons c cs ih =>
    apply ih
    rwa [Text.width, ← Nat.add_assoc] at h

theorem placed_ofSegment {start : Nat} {s : Segment} {rest : List Piece}
    (h : Placed (start + s.width) rest) : Placed start (ofSegment start s ++ rest) := by
  cases s with
  | gap cs => exact Placed.append_plain h
  | span inner =>
    rw [ofSegment]
    split
    next t ht =>
      have hname : Name.normalize t.name = t.name := by
        rw [Tag.name_of_ofSpan? ht, Name.normalize_normalize]
      have hstop := Tag.stop_of_ofSpan? ht
      refine ⟨Tag.start_of_ofSpan? ht, ?_, ?_, hname, hstop ▸ h⟩
      · rw [hstop, Tag.fullText_of_ofSpan? ht, Segment.width]
      · rw [Tag.fullText_of_ofSpan? ht]
        exact List.cons_ne_nil _ _
    next => exact Placed.append_plain h

theorem placed_ofSegments (start : Nat) (segments : List Segment) :
    Placed start (ofSegments start segments) := by
  induction segments generalizing start with
  | nil => trivial
  | cons s rest ih => exact placed_ofSegment (ih _)

theorem placed_cut (text : String) : Placed 0 (cut text) :=
  placed_ofSegments 0 _

theorem Placed.le_start {position : Nat} {pieces : List Piece} (h : Placed position pieces) :
    ∀ t ∈ pieces.filterMap tag?, position ≤ t.start := by
  induction pieces generalizing position with
  | nil => simp
  | cons p rest ih =>
    cases p with
    | plain c =>
      intro t ht
      have := ih h t (by simpa [tag?] using ht)
      omega
    | tag t =>
      obtain ⟨hstart, hstop, -, -, hrest⟩ := h
      intro t' ht'
      simp only [List.filterMap_cons, tag?, List.mem_cons] at ht'
      obtain rfl | ht' := ht'
      · exact Nat.le_of_eq hstart.symm
      · have := ih hrest t' ht'
        omega

end Piece

/-- A tag at `position` that ends where it says, with a name in normal form. -/
structure Tag.Lies (position : Nat) (t : Tag) : Prop where
  start : t.start = position
  stop : t.stop = position + Text.width t.fullText.toList
  nonempty : t.fullText.toList ≠ []
  normal : Name.normalize t.name = t.name

theorem Tag.Lies.start_lt_stop {position : Nat} {t : Tag} (h : t.Lies position) :
    t.start < t.stop := by
  have hwidth := Text.width_pos h.nonempty
  rw [h.start, h.stop]
  omega

/-- Behind its first character comes the rest of it. -/
theorem Tag.Lies.exists_chars {position : Nat} {t : Tag} (h : t.Lies position) :
    ∃ c cs, t.fullText.toList = c :: cs ∧ position + c.utf8Size + Text.width cs = t.stop := by
  obtain ⟨c, cs, hchars⟩ := List.exists_cons_of_ne_nil h.nonempty
  refine ⟨c, cs, hchars, ?_⟩
  rw [h.stop, hchars, Text.width, Nat.add_assoc]

namespace Piece

/-- Induction along pieces that lie where their tags say. The tags to come start behind a character,
and not before the end of a tag. -/
@[elab_as_elim]
theorem Placed.along
    {motive : (position : Nat) → (pieces : List Piece) → Placed position pieces → Prop}
    (nil : ∀ position, motive position [] trivial)
    (plain : ∀ {position : Nat} (c : Char) (rest : List Piece)
      (hrest : Placed (position + c.utf8Size) rest),
      (∀ t ∈ rest.filterMap tag?, position < t.start) →
        motive (position + c.utf8Size) rest hrest → motive position (.plain c :: rest) hrest)
    (tag : ∀ {position : Nat} (t : Tag) (rest : List Piece) (hlies : t.Lies position)
      (hrest : Placed t.stop rest), (∀ u ∈ rest.filterMap tag?, t.stop ≤ u.start) →
        motive t.stop rest hrest → motive position (.tag t :: rest)
          ⟨hlies.start, hlies.stop, hlies.nonempty, hlies.normal, hrest⟩)
    {position : Nat} {pieces : List Piece} (h : Placed position pieces) :
    motive position pieces h := by
  induction pieces generalizing position with
  | nil => exact nil position
  | cons p rest ih =>
    cases p with
    | plain c =>
      have hrest : Placed (position + c.utf8Size) rest := h
      refine plain c rest hrest (fun t ht => ?_) (ih hrest)
      have hsize := c.utf8Size_pos
      have hstarts := hrest.le_start t ht
      omega
    | tag t =>
      obtain ⟨hstart, hstop, hne, hname, hrest⟩ := h
      exact tag t rest ⟨hstart, hstop, hne, hname⟩ hrest hrest.le_start (ih hrest)

end Piece

theorem Tag.reach_of_lt {position : Nat} {tags : List Tag} (h : ∀ t ∈ tags, position < t.start) :
    Tag.reach position tags = (none, tags) := by
  cases tags with
  | nil => rfl
  | cons t rest =>
    have ht := h t List.mem_cons_self
    rw [reach, List.dropWhile_cons_of_neg (by simpa using Nat.le_of_lt ht)]
    exact if_neg (Nat.ne_of_gt ht)

theorem Tag.reach_cons {position : Nat} {t : Tag} {rest : List Tag} (h : t.start = position) :
    Tag.reach position (t :: rest) = (some t, rest) := by
  rw [reach, List.dropWhile_cons_of_neg (by simp [h])]
  exact if_pos h

end TextReveal
