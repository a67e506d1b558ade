import TextReveal.Registry
import TextReveal.Tag
/-!
What a live session and an instant pass have in common: how a position meets the tags of a text, and
where it goes on behind one.
-/
namespace TextReveal

/-- The tag that starts at a position, and the tags to come. Tags that start before the position lie
inside a span that is dealt with, and are forgotten. -/
def Tag.reach (position : Nat) (tags : List Tag) : Option Tag × List Tag :=
  match tags.dropWhile (·.start < position) with
  | t :: rest => if t.start = position then (some t, rest) else (none, t :: rest)
  | [] => (none, [])

theorem Tag.mem_of_reach {position : Nat} {tags later : List Tag} {here : Option Tag}
    (h : Tag.reach position tags = (here, later)) :
    (∀ t ∈ here, t ∈ tags) ∧ ∀ t ∈ later, t ∈ tags := by
  have hsub : ∀ t ∈ tags.dropWhile (·.start < position), t ∈ tags :=
    fun t ht => (List.dropWhile_suffix _).subset ht
  unfold Tag.reach at h
  split at h
  · rename_i t rest hrest
    rw [hrest] at hsub
    split at h <;> cases h
    · refine ⟨?_, fun t ht => hsub t (List.mem_cons_of_mem _ ht)⟩
      rintro _ ⟨⟩
      exact hsub t (List.mem_cons_self ..)
    · exact ⟨by simp, hsub⟩
  · cases h
    exact ⟨by simp, by simp⟩

/-- The first byte behind a tag that is not dealt with. -/
def Tag.landing (t : Tag) (r : Response) : Nat :=
  max t.stop (t.start + r.consumed)

/-- Whether a tag is for the closing effect of its handler. Closing tags of handlers without regions
are opening ones to them. -/
def Tag.closes (t : Tag) (h : Handler) : Bool :=
  t.closing && h.isRegion

end TextReveal
