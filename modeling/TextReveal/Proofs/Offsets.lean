import Mathlib.Data.List.Pairwise
import Mathlib.Order.Bounds.Basic
import TextReveal.Proofs.Grammar
import TextReveal.Proofs.Strides
/-!
Where strides begin and where they land: at the boundaries between characters, each at the first one
that the stride before it has not dealt with.
-/
namespace TextReveal

/-- Of two members of a list in order one comes first. -/
theorem eq_or_rel_of_mem {α : Type} {R : α → α → Prop} {l : List α} (h : l.Pairwise R) {a b : α}
    (ha : a ∈ l) (hb : b ∈ l) : a = b ∨ R a b ∨ R b a := by
  by_cases hne : a = b
  · exact .inl hne
  · have hboth : l.Pairwise fun a b => R a b ∨ R b a := h.imp .inl
    have hsymm : Std.Symm fun a b => R a b ∨ R b a := ⟨fun _ _ => Or.symm⟩
    exact .inr (hboth.forall ha hb hne)

namespace Text

/-- The byte positions between characters, and those at both ends. -/
def bounds (position : Nat) : List Char → List Nat
  | [] => [position]
  | c :: cs => position :: bounds (position + c.utf8Size) cs

variable {position p : Nat} {cs : List Char}

theorem mem_bounds : p ∈ bounds position cs ↔
    ∃ before after, cs = before ++ after ∧ p = position + width before := by
  induction cs generalizing position with
  | nil =>
    constructor
    · intro h
      exact ⟨[], [], rfl, List.mem_singleton.mp h⟩
    · rintro ⟨before, after, h, rfl⟩
      obtain ⟨rfl, -⟩ := List.append_eq_nil_iff.mp h.symm
      exact List.mem_singleton_self _
  | cons c cs ih =>
    rw [bounds, List.mem_cons, ih]
    constructor
    · rintro (rfl | ⟨before, after, rfl, rfl⟩)
      · exact ⟨[], c :: cs, rfl, rfl⟩
      · exact ⟨c :: before, after, rfl, Nat.add_assoc ..⟩
    · rintro ⟨before, after, h, rfl⟩
      cases before with
      | nil => exact .inl rfl
      | cons d before =>
        obtain ⟨rfl, rfl⟩ := List.cons_eq_cons.mp h
        exact .inr ⟨before, after, rfl, (Nat.add_assoc ..).symm⟩

theorem width_toList (text : String) : width text.toList = text.utf8ByteSize := by
  rw [width_eq, String.ofList_toList]

theorem isValid_iff_mem_bounds {text : String} :
    (⟨p⟩ : String.Pos.Raw).IsValid text ↔ p ∈ bounds 0 text.toList := by
  rw [String.Pos.Raw.isValid_iff_exists_append, mem_bounds]
  constructor
  · rintro ⟨before, after, rfl, h⟩
    refine ⟨before.toList, after.toList, String.toList_append, ?_⟩
    rw [width_eq, String.ofList_toList, Nat.zero_add]
    exact congrArg String.Pos.Raw.byteIdx h
  · rintro ⟨before, after, htext, rfl⟩
    refine ⟨String.ofList before, String.ofList after, ?_, ?_⟩
    · rw [← String.ofList_append, ← htext, String.ofList_toList]
    · rw [width_eq, Nat.zero_add]
      rfl

theorem le_of_mem_bounds (h : p ∈ bounds position cs) : position ≤ p := by
  obtain ⟨before, -, -, rfl⟩ := mem_bounds.mp h
  exact Nat.le_add_right ..

theorem mem_bounds_of_mem_placed {c : Char} (h : (c, p) ∈ placed position cs) :
    p ∈ bounds position cs := by
  induction cs generalizing position with
  | nil => cases h
  | cons d cs ih =>
    rw [placed, List.mem_cons, Prod.mk.injEq] at h
    obtain ⟨-, rfl⟩ | h := h
    · exact List.mem_cons_self
    · exact List.mem_cons_of_mem _ (ih h)

/-- Behind a boundary there is a character, unless it is the end. -/
theorem exists_mem_placed_of_mem_bounds (h : p ∈ bounds position cs)
    (hend : p < position + width cs) : ∃ c, (c, p) ∈ placed position cs := by
  induction cs generalizing position with
  | nil =>
    obtain rfl := List.mem_singleton.mp h
    exact absurd hend (Nat.lt_irrefl _)
  | cons d cs ih =>
    rw [bounds, List.mem_cons] at h
    obtain rfl | h := h
    · exact ⟨d, List.mem_cons_self⟩
    · obtain ⟨c, hc⟩ := ih h (by rw [width] at hend; omega)
      exact ⟨c, List.mem_cons_of_mem _ hc⟩

/-- Characters do not overlap. -/
theorem placed_apart (position : Nat) (cs : List Char) :
    (placed position cs).Pairwise fun a b => a.2 + a.1.utf8Size ≤ b.2 := by
  induction cs generalizing position with
  | nil => exact .nil
  | cons c cs ih => exact .cons (fun b hb => (mem_placed hb).1) (ih _)

theorem placed_increasing (position : Nat) (cs : List Char) :
    ((placed position cs).map Prod.snd).Pairwise (· < ·) := by
  refine List.pairwise_map.mpr ((placed_apart position cs).imp fun {a b} hapart => ?_)
  have hsize := a.1.utf8Size_pos
  omega

theorem end_le_of_mem_placed {c : Char} (h : (c, p) ∈ placed position cs) :
    p + c.utf8Size ≤ position + width cs := by
  induction cs generalizing position with
  | nil => cases h
  | cons d cs ih =>
    rw [width]
    obtain h | h := List.mem_cons.mp h
    · obtain ⟨rfl, rfl⟩ := Prod.mk.inj h
      omega
    · have := ih h
      omega

theorem length_placed_le (position : Nat) (cs : List Char) :
    (placed position cs).length ≤ width cs := by
  induction cs generalizing position with
  | nil => exact Nat.le_refl _
  | cons c cs ih =>
    have hrest := ih (position + c.utf8Size)
    have hsize := c.utf8Size_pos
    rw [placed, List.length_cons, width]
    omega

end Text

theorem Piece.Placed.start_lt_stop {position : Nat} {pieces : List Piece}
    (h : Placed position pieces) {t : Tag} (ht : t ∈ pieces.filterMap tag?) :
    t.start < t.stop := by
  induction h using Placed.along with
  | nil => simp at ht
  | plain c rest _ _ ih => exact ih ht
  | tag u rest hlies _ _ ih =>
    obtain rfl | ht := List.mem_cons.mp ht
    · exact hlies.start_lt_stop
    · exact ih ht

namespace Tag
variable {tags : List Tag} {position : Nat}

theorem reach_sublist (position : Nat) (tags : List Tag) :
    ((reach position tags).1.toList ++ (reach position tags).2).Sublist tags := by
  unfold reach
  split
  · rename_i t rest hdrop
    have hsub : (t :: rest).Sublist tags := hdrop ▸ List.dropWhile_sublist _
    split <;> exact hsub
  · exact List.nil_sublist _

theorem reach_cons_eq (t : Tag) : reach position (t :: tags) =
    if t.start < position then reach position tags
    else if t.start = position then (some t, tags) else (none, t :: tags) := by
  by_cases hbefore : t.start < position <;> simp [reach, hbefore]

/-- Of tags in order, the one that starts at a position is met there, and those behind it stay. -/
theorem reach_eq (hsorted : tags.Pairwise fun t u => t.start < u.start) :
    reach position tags =
      (tags.find? (·.start = position), tags.filter (position + 1 ≤ ·.start)) := by
  induction hsorted with
  | nil => rfl
  | @cons t tags hlater _ ih =>
    have hkept (h : position ≤ t.start) : tags.filter (position + 1 ≤ ·.start) = tags := by
      refine List.filter_eq_self.mpr fun u hu => ?_
      have := hlater u hu
      simpa using (by omega : position + 1 ≤ u.start)
    rw [reach_cons_eq, List.find?_cons, List.filter_cons]
    by_cases hbefore : t.start < position
    · rw [if_pos hbefore, ih]
      simp [Nat.ne_of_lt hbefore, show ¬position + 1 ≤ t.start by omega]
    · rw [if_neg hbefore]
      by_cases hhere : t.start = position
      · rw [hkept (Nat.le_of_eq hhere.symm)]
        simp [hhere]
      · have hbehind : position + 1 ≤ t.start := by omega
        have hnone : tags.find? (·.start = position) = none := by
          refine List.find?_eq_none.mpr fun u hu => ?_
          have := hlater u hu
          simpa using (by omega : u.start ≠ position)
        rw [hkept (by omega), hnone]
        simp [hhere, hbehind]

/-- The tags that a loop has not reached are those from some position on. -/
theorem reach_filter {from' : Nat} (hsorted : tags.Pairwise fun t u => t.start < u.start)
    (hfrom : from' ≤ position) : reach position (tags.filter (from' ≤ ·.start)) =
      (tags.find? (·.start = position), tags.filter (position + 1 ≤ ·.start)) := by
  rw [reach_eq (hsorted.filter _), List.find?_filter, List.filter_filter]
  congr 2
  · funext t
    by_cases h : t.start = position <;> simp [h, hfrom]
  · funext t
    by_cases h : position + 1 ≤ t.start
    · simp [h, show from' ≤ t.start by omega]
    · simp [h]

/-- A tag has a first character. -/
theorem start_lt_stop {text : String} {t : Tag} (h : t ∈ lex text) : t.start < t.stop := by
  rw [← Piece.tags_cut] at h
  exact (Piece.placed_cut text).start_lt_stop h

variable {text : String} {t u : Tag}

theorem pairwise_lex (text : String) :
    (lex text).Pairwise fun t u => t.start < u.start ∧ t.stop ≤ u.start := by
  rw [← Piece.tags_cut]
  exact (Piece.placed_cut text).pairwise

theorem stop_le (h : t ∈ lex text) : t.stop ≤ text.utf8ByteSize :=
  (slice_of_mem_lex h).2.1.le_rawEndPos

theorem eq_of_start_eq (ht : t ∈ lex text) (hu : u ∈ lex text)
    (h : t.start = u.start) : t = u := by
  obtain heq | hlt | hlt := eq_or_rel_of_mem (pairwise_lex text) ht hu
  · exact heq
  · omega
  · omega

theorem stop_le_start (hu : u ∈ lex text) (ht : t ∈ lex text)
    (h : u.start < t.start) : u.stop ≤ t.start := by
  obtain rfl | hapart | hapart := eq_or_rel_of_mem (pairwise_lex text) hu ht
  · omega
  · exact hapart.2
  · omega

theorem exists_mem_placed (h : t ∈ lex text) :
    ∃ c, (c, t.start) ∈ Text.placed 0 text.toList := by
  refine Text.exists_mem_placed_of_mem_bounds
    (Text.isValid_iff_mem_bounds.mp (slice_of_mem_lex h).1) ?_
  rw [Nat.zero_add, Text.width_toList]
  exact Nat.lt_of_lt_of_le (start_lt_stop h) (stop_le h)

end Tag

namespace Stride

/-- Where the first of some strides begins, or else the end of the text. -/
def next (size : Nat) (strides : List Stride) : Nat :=
  (strides.head?.map position).getD size

end Stride

section
variable {answer : Handler → Tag → Context → Reply} {r : Registry} {policy : UnknownTags}
  {c : Char} {rest chars : List Char} {position resume : Nat} {tags : List Tag} {ctx : Context}

theorem strides_of_lt (h : position < resume) :
    strides answer r policy (c :: rest) position resume tags ctx =
      strides answer r policy rest (position + c.utf8Size) resume tags ctx := by
  rw [strides, if_pos h]

theorem strides_of_le (h : resume ≤ position) : ∃ s : Stride,
    strides answer r policy (c :: rest) position resume tags ctx =
        s :: strides answer r policy rest (position + c.utf8Size) s.landing
          (Tag.reach position tags).2 s.after ∧
      s.position = position ∧
      s.dealing = Dealing.at answer r policy c s.context (Tag.reach position tags).1 ∧
      s.context = { ctx with cursor := s.position } := by
  rw [strides, if_neg (Nat.not_lt.mpr h)]
  exact ⟨_, rfl, rfl, rfl, rfl⟩

/-- A stride takes no other tag than the one it finds. -/
theorem Stride.filterMap_tag?_sublist {s : Stride} {here : Option Tag}
    (h : s.dealing = Dealing.at answer r policy c s.context here) :
    ([s].filterMap tag?).Sublist here.toList := by
  cases here with
  | none => simp [tag?, h, Dealing.at]
  | some t =>
    rw [Dealing.at.eq_def] at h
    cases hget : r.get? t.name with
    | some handler => simp [tag?, h, hget]
    | none => cases policy <;> simp [tag?, h, hget]

/-- No character is dealt with twice, and what is dealt with begins with a character. -/
theorem map_position_strides : ((strides answer r policy chars position resume tags ctx).map
    Stride.position).Sublist ((Text.placed position chars).map Prod.snd) := by
  induction chars generalizing position resume tags ctx with
  | nil => exact .slnil
  | cons c rest ih =>
    rw [Text.placed, List.map_cons]
    by_cases hlt : position < resume
    · rw [strides_of_lt hlt]
      exact ih.cons _
    · obtain ⟨s, heq, hposition, -⟩ := strides_of_le (Nat.not_lt.mp hlt)
      rw [heq, List.map_cons, hposition]
      exact ih.cons_cons _

theorem filterMap_tag?_strides : ((strides answer r policy chars position resume tags ctx).filterMap
    Stride.tag?).Sublist tags := by
  induction chars generalizing position resume tags ctx with
  | nil => exact List.nil_sublist _
  | cons c rest ih =>
    by_cases hlt : position < resume
    · rw [strides_of_lt hlt]
      exact ih
    · obtain ⟨s, heq, -, hdealing, -⟩ := strides_of_le (Nat.not_lt.mp hlt)
      rw [heq, ← List.singleton_append, List.filterMap_append]
      have hhere := Stride.filterMap_tag?_sublist hdealing
      exact (hhere.append ih).trans (Tag.reach_sublist position tags)

theorem le_position {s : Stride}
    (hs : s ∈ strides answer r policy chars position resume tags ctx) :
    position ≤ s.position ∧ resume ≤ s.position := by
  induction chars generalizing position resume tags ctx with
  | nil => cases hs
  | cons c rest ih =>
    have hsize := c.utf8Size_pos
    by_cases hlt : position < resume
    · rw [strides_of_lt hlt] at hs
      have := ih hs
      omega
    · obtain ⟨s', heq, hposition, -⟩ := strides_of_le (Nat.not_lt.mp hlt)
      rw [heq] at hs
      obtain rfl | hs := List.mem_cons.mp hs
      · omega
      · have := ih hs
        omega

/-- At each position the loop meets the tag that starts there, if there is one. -/
theorem mem_strides {kept : Nat} {s : Stride}
    (hsorted : tags.Pairwise fun t u => t.start < u.start) (hkept : kept ≤ position)
    (hs : s ∈ strides answer r policy chars position resume (tags.filter (kept ≤ ·.start)) ctx) :
    ∃ c, (c, s.position) ∈ Text.placed position chars ∧
      s.dealing =
        Dealing.at answer r policy c s.context (tags.find? (·.start = s.position)) := by
  induction chars generalizing kept position resume ctx with
  | nil => cases hs
  | cons c rest ih =>
    have hsize := c.utf8Size_pos
    by_cases hlt : position < resume
    · rw [strides_of_lt hlt] at hs
      obtain ⟨d, hd, hdealing⟩ := ih (by omega) hs
      exact ⟨d, List.mem_cons_of_mem _ hd, hdealing⟩
    · obtain ⟨s', heq, rfl, hdealing, -⟩ := strides_of_le (Nat.not_lt.mp hlt)
      rw [heq, Tag.reach_filter hsorted hkept] at hs
      obtain rfl | hs := List.mem_cons.mp hs
      · rw [Tag.reach_filter hsorted hkept] at hdealing
        exact ⟨c, List.mem_cons_self, hdealing⟩
      · obtain ⟨d, hd, hdealing⟩ := ih (by omega) hs
        exact ⟨d, List.mem_cons_of_mem _ hd, hdealing⟩

/-- A stride leads on, so long as the tag that it may take has a first character. -/
theorem Stride.position_lt_landing {s : Stride} (htags : ∀ t ∈ tags, t.start < t.stop)
    (h : s.dealing = Dealing.at answer r policy c s.context (tags.find? (·.start = s.position))) :
    s.position < s.landing := by
  have hsize := c.utf8Size_pos
  cases hfind : tags.find? (·.start = s.position) with
  | none =>
    rw [hfind] at h
    simp only [landing, h, Dealing.at]
    omega
  | some t =>
    have hstart : t.start = s.position := by simpa using List.find?_some hfind
    have hstop := htags t (List.mem_of_find?_eq_some hfind)
    rw [hfind, Dealing.at.eq_def] at h
    cases hget : r.get? t.name with
    | some handler =>
      simp only [hget] at h
      simp only [landing, h, Tag.landing]
      omega
    | none =>
      cases policy
      · simp only [hget] at h
        simp only [landing, h]
        omega
      · simp only [hget] at h
        simp only [landing, h]
        omega

/-- A stride finds what the strides before it have left. -/
theorem context_of_strides {before behind : List Stride} {s : Stride}
    (h : strides answer r policy chars position resume tags ctx = before ++ s :: behind) :
    s.context = { Stride.last ctx before with cursor := s.position } := by
  induction chars generalizing position resume tags ctx before with
  | nil => simp [strides] at h
  | cons c rest ih =>
    by_cases hlt : position < resume
    · rw [strides_of_lt hlt] at h
      exact ih h
    · obtain ⟨s', heq, -, -, hcontext⟩ := strides_of_le (Nat.not_lt.mp hlt)
      rw [heq] at h
      cases before with
      | nil =>
        obtain ⟨rfl, -⟩ := List.cons_eq_cons.mp h
        exact hcontext
      | cons first before =>
        rw [List.cons_append] at h
        obtain ⟨rfl, hrest⟩ := List.cons_eq_cons.mp h
        have hfound := ih hrest
        exact hfound

theorem isLeast_bounds_cons {goal p : Nat} (hgoal : position < goal)
    (h : IsLeast {p ∈ Text.bounds (position + c.utf8Size) rest | goal ≤ p} p) :
    IsLeast {p ∈ Text.bounds position (c :: rest) | goal ≤ p} p := by
  refine ⟨⟨List.mem_cons_of_mem _ h.1.1, h.1.2⟩, fun q ⟨hq, hle⟩ => ?_⟩
  obtain rfl | hq := List.mem_cons.mp hq
  · exact absurd hle (Nat.not_le.mpr hgoal)
  · exact h.2 ⟨hq, hle⟩

/-- The loop begins at the first boundary that is not dealt with. -/
theorem isLeast_next : IsLeast
    {p ∈ Text.bounds position chars | min resume (position + Text.width chars) ≤ p}
    (Stride.next (position + Text.width chars)
      (strides answer r policy chars position resume tags ctx)) := by
  induction chars generalizing position resume tags ctx with
  | nil =>
    refine ⟨⟨List.mem_singleton_self _, Nat.min_le_right ..⟩, fun p ⟨hp, _⟩ => ?_⟩
    exact Nat.le_of_eq (List.mem_singleton.mp hp).symm
  | cons c rest ih =>
    have hsize := c.utf8Size_pos
    by_cases hlt : position < resume
    · rw [strides_of_lt hlt, Text.width, ← Nat.add_assoc]
      exact isLeast_bounds_cons (by omega) ih
    · obtain ⟨s, heq, rfl, -⟩ := strides_of_le (Nat.not_lt.mp hlt)
      rw [heq]
      exact ⟨⟨List.mem_cons_self, Nat.le_trans (Nat.min_le_left ..) (Nat.not_lt.mp hlt)⟩,
        fun p hp => Text.le_of_mem_bounds hp.1⟩

/-- Behind a stride the loop goes on at the first boundary that the stride has not dealt with. -/
theorem isLeast_next_behind {before behind : List Stride} {s : Stride}
    (hlands : ∀ s ∈ strides answer r policy chars position resume tags ctx, s.position < s.landing)
    (h : strides answer r policy chars position resume tags ctx = before ++ s :: behind) :
    IsLeast {p ∈ Text.bounds position chars | min s.landing (position + Text.width chars) ≤ p}
      (Stride.next (position + Text.width chars) behind) := by
  induction chars generalizing position resume tags ctx before with
  | nil => simp [strides] at h
  | cons c rest ih =>
    have hs : s ∈ strides answer r policy (c :: rest) position resume tags ctx := by simp [h]
    have hposition := (le_position hs).1
    have hleads := hlands s hs
    have hsize := c.utf8Size_pos
    rw [Text.width, ← Nat.add_assoc]
    refine isLeast_bounds_cons (by omega) ?_
    by_cases hlt : position < resume
    · rw [strides_of_lt hlt] at h hlands
      exact ih hlands h
    · obtain ⟨s', heq, -, -⟩ := strides_of_le (Nat.not_lt.mp hlt)
      rw [heq] at h hlands
      cases before with
      | nil =>
        obtain ⟨rfl, rfl⟩ := List.cons_eq_cons.mp h
        exact isLeast_next
      | cons first before =>
        rw [List.cons_append] at h
        obtain ⟨-, h⟩ := List.cons_eq_cons.mp h
        exact ih (fun s hs => hlands s (List.mem_cons_of_mem _ hs)) h

/-- A character is passed over exactly if an earlier stride deals with it. -/
theorem exists_position_iff {d : Char} {p : Nat} (hp : (d, p) ∈ Text.placed position chars) :
    (∃ s ∈ strides answer r policy chars position resume tags ctx, s.position = p) ↔
      resume ≤ p ∧ ∀ s ∈ strides answer r policy chars position resume tags ctx,
        s.position < p → s.landing ≤ p := by
  -- Either the character is the one at `position`, or the induction speaks of it.
  induction chars generalizing position resume tags ctx with
  | nil => cases hp
  | cons c rest ih =>
    have hsize := c.utf8Size_pos
    have hhere : p = position ∨ (d, p) ∈ Text.placed (position + c.utf8Size) rest := by
      obtain h | h := List.mem_cons.mp hp
      · exact .inl (congrArg Prod.snd h)
      · exact .inr h
    by_cases hlt : position < resume
    · rw [strides_of_lt hlt]
      obtain rfl | hp := hhere
      · constructor
        · rintro ⟨s, hs, rfl⟩
          exact absurd (le_position hs).1 (by omega)
        · intro h
          omega
      · exact ih hp
    · obtain ⟨s', heq, hposition, -⟩ := strides_of_le (Nat.not_lt.mp hlt)
      rw [heq, List.forall_mem_cons]
      obtain rfl | hp := hhere
      · refine ⟨fun _ => ⟨by omega, by omega, fun s hs hbefore => ?_⟩,
          fun _ => ⟨s', List.mem_cons_self, hposition⟩⟩
        have := (le_position hs).1
        omega
      · have hbehind := (Text.mem_placed hp).1
        have hlater := @ih _ s'.landing (Tag.reach position tags).2 s'.after hp
        constructor
        · rintro ⟨s, hs, hat⟩
          obtain rfl | hs := List.mem_cons.mp hs
          · omega
          · obtain ⟨hlands, hrest⟩ := hlater.mp ⟨s, hs, hat⟩
            exact ⟨by omega, fun _ => hlands, hrest⟩
        · rintro ⟨-, hlands, hrest⟩
          obtain ⟨s, hs, hat⟩ := hlater.mpr ⟨hlands (by omega), hrest⟩
          exact ⟨s, List.mem_cons_of_mem _ hs, hat⟩

end

end TextReveal
