import TextReveal.Proofs.Agreement
import TextReveal.Proofs.Registering
import TextReveal.Proofs.Stripping
import TextReveal.Validation
/-!
The names that a text uses. Whatever is read off a text depends on a registry only by the handlers
that it has for these names.
-/
namespace TextReveal

/-- These names without repetitions, each where it is met first. -/
structure AreFirsts (firsts names : List String) : Prop where
  nodup : firsts.Nodup
  ordered : firsts.Pairwise fun a b => names.idxOf a < names.idxOf b
  mem : ∀ name, name ∈ firsts ↔ name ∈ names

theorem areFirsts_nil : AreFirsts [] [] := ⟨.nil, .nil, fun _ => .rfl⟩

theorem AreFirsts.concat {firsts names : List String} (h : AreFirsts firsts names)
    (name : String) :
    AreFirsts (if name ∈ firsts then firsts else firsts ++ [name]) (names ++ [name]) := by
  have hsame {a : String} (ha : a ∈ firsts) : (names ++ [name]).idxOf a = names.idxOf a :=
    List.idxOf_append_of_mem ((h.mem a).mp ha)
  have hordered : firsts.Pairwise fun a b =>
      (names ++ [name]).idxOf a < (names ++ [name]).idxOf b := by
    refine h.ordered.imp_of_mem fun ha hb hlt => ?_
    rwa [hsame ha, hsame hb]
  by_cases hname : name ∈ firsts
  · rw [if_pos hname]
    refine ⟨h.nodup, hordered, fun a => ?_⟩
    rw [List.mem_append, List.mem_singleton, ← h.mem]
    exact ⟨.inl, fun ha => ha.elim id fun heq => heq ▸ hname⟩
  · rw [if_neg hname]
    refine ⟨List.nodup_append.mpr ⟨h.nodup, List.nodup_cons.mpr ⟨List.not_mem_nil, .nil⟩, ?_⟩,
      List.pairwise_append.mpr ⟨hordered, List.pairwise_singleton _ _, ?_⟩, fun a => ?_⟩
    · rintro a ha b hb rfl
      exact hname (List.mem_singleton.mp hb ▸ ha)
    · rintro a ha b hb
      obtain rfl := List.mem_singleton.mp hb
      have hlast : (names ++ [b]).idxOf b = names.length := by
        simp [List.idxOf_append_of_notMem (mt (h.mem b).mpr hname)]
      rw [hsame ha, hlast]
      exact List.idxOf_lt_length_of_mem ((h.mem a).mp ha)
    · rw [List.mem_append, List.mem_append, h.mem]

theorem areFirsts_usedNames (text : String) :
    AreFirsts (usedNames text) ((Tag.lex text).map Tag.name) := by
  rw [usedNames]
  induction Tag.lex text using List.reverseRecOn with
  | nil => exact areFirsts_nil
  | append_singleton tags t ih =>
    have hnext := ih.concat t.name
    rw [List.foldl_concat, List.map_append]
    simp only [List.mem_reverse] at hnext
    split
    · rwa [if_pos ‹_›] at hnext
    · rwa [if_neg ‹_›, ← List.reverse_cons] at hnext

theorem name_mem_usedNames {text : String} {t : Tag} (h : t ∈ Tag.lex text) :
    t.name ∈ usedNames text :=
  ((areFirsts_usedNames text).mem t.name).mpr (List.mem_map_of_mem h)

theorem normalize_of_mem_usedNames {text name : String} (h : name ∈ usedNames text) :
    Name.normalize name = name := by
  obtain ⟨t, ht, rfl⟩ := List.mem_map.mp (((areFirsts_usedNames text).mem name).mp h)
  exact Tag.normalize_name ht

namespace Registry

/-- The same handlers for these names, whatever there is for others. -/
def AgreeOn (names : List String) (r r' : Registry) : Prop :=
  ∀ name ∈ names, r.get? name = r'.get? name

/-- Writes that decide nothing about the names of a text. -/
theorem agreeOn_foldl_write {text : String} {writes : List Write}
    (h : ∀ w ∈ writes, ∀ name ∈ usedNames text, ¬w.Decides name) (r : Registry) :
    r.AgreeOn (usedNames text) (writes.foldl write r) := by
  induction writes generalizing r with
  | nil => exact fun _ _ => rfl
  | cons w writes ih =>
    intro name hname
    have hw := h w (List.mem_cons_self ..) name hname
    rw [List.foldl_cons, ← ih (fun w hw => h w (List.mem_cons_of_mem _ hw)) _ name hname]
    simp only [get?, normalize_of_mem_usedNames hname, getElem?_write]
    cases w with
    | put h => exact (if_neg hw).symm
    | take other => exact (if_neg hw).symm
    | wipe => exact absurd trivial hw

variable {r r' : Registry} {text : String}

theorem AgreeOn.strip (h : r.AgreeOn (usedNames text) r') : r.strip text = r'.strip text := by
  refine String.toList_injective ?_
  rw [toList_strip, toList_strip]
  refine List.flatMap_congr fun p hp => ?_
  cases p with
  | plain c => rfl
  | tag t =>
    have ht : t ∈ Tag.lex text := by
      rw [← Piece.tags_cut]
      exact List.mem_filterMap.mpr ⟨_, hp, rfl⟩
    rw [Piece.kept, Piece.kept, Registry.strips, Registry.strips, h _ (name_mem_usedNames ht)]

theorem check_congr {tags : List Tag} (h : ∀ t ∈ tags, r.get? t.name = r'.get? t.name)
    (opened : List (String × Nat)) : r.check opened tags = r'.check opened tags := by
  induction tags generalizing opened with
  | nil => rfl
  | cons t rest ih =>
    have ih := ih fun u hu => h u (List.mem_cons_of_mem t hu)
    simp only [check, h t (List.mem_cons_self ..), ih]

theorem AgreeOn.validate (h : r.AgreeOn (usedNames text) r') :
    r.validate text = r'.validate text :=
  check_congr (fun _ ht => h _ (name_mem_usedNames ht)) []

theorem walk_congr {policy : UnknownTags} {tags : List Tag}
    (h : ∀ t ∈ tags, r.get? t.name = r'.get? t.name) (chars : List Char) (position resume : Nat)
    (ctx : Context) : Instant.walk r policy chars position resume tags ctx =
      Instant.walk r' policy chars position resume tags ctx := by
  induction chars generalizing position resume tags ctx with
  | nil => rfl
  | cons c rest ih =>
    rw [Instant.walk, Instant.walk]
    split
    · exact ih h ..
    · obtain ⟨hhere, hlater⟩ : (∀ t ∈ (Tag.reach position tags).1, t ∈ tags) ∧
          ∀ t ∈ (Tag.reach position tags).2, t ∈ tags := Tag.mem_of_reach rfl
      have hrest := ih fun t ht => h t (hlater t ht)
      dsimp only
      split
      · exact hrest ..
      · rename_i t hreach
        rw [h t (hhere t hreach)]
        split
        · rw [hrest]
        · exact hrest ..
        · exact hrest ..

end Registry
end TextReveal
