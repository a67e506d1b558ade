import TextReveal.Proofs.Nesting
import TextReveal.Proofs.Offsets
/-!
Diagnoses. Closing tags can be paired with the tags that they close so that what the validator
finds is, for each tag, what is to be said about it.
-/
namespace TextReveal

/-- An opening tag and the tag that closes it. -/
structure Region where
  opening : Tag
  closing : Tag
  deriving DecidableEq, Repr

namespace Issue

def offset : Issue → Nat
  | unknownTag _ offset => offset
  | unclosedTag _ offset => offset
  | mismatchedClosing _ _ offset => offset
  | closingNonRegion _ offset => offset

def isUnclosed : Issue → Bool
  | unclosedTag .. => true
  | _ => false

def isWarning : Issue → Bool
  | closingNonRegion .. => true
  | _ => false

end Issue

namespace Validation

/-- Unclosed tags are only known at the end, and are errors behind all others. -/
def ofIssues (issues : List Issue) : Validation where
  errors := issues.filter (fun i => !i.isUnclosed && !i.isWarning) ++ issues.filter (·.isUnclosed)
  warnings := issues.filter (·.isWarning)

def add? (v : Validation) : Option Issue → Validation
  | none => v
  | some i => if i.isWarning then v.addWarning i else v.addError i

/-- What is found on the way comes before what is found on the way later. -/
theorem ofIssues_insert {before behind : List Issue} {found : Option Issue}
    (hbefore : ∀ i ∈ before, i.isUnclosed) (hfound : ∀ i ∈ found, i.isUnclosed = false) :
    ofIssues (before ++ (found.toList ++ behind)) = (ofIssues (before ++ behind)).add? found := by
  cases found with
  | none => rfl
  | some i =>
    have hi := hfound i rfl
    have hfirst : before.filter (fun i => !i.isUnclosed && !i.isWarning) = [] :=
      List.filter_eq_nil_iff.mpr fun i hi => by simp [hbefore i hi]
    have hwarnings : before.filter (·.isWarning) = [] := by
      refine List.filter_eq_nil_iff.mpr fun i hi => ?_
      have hunclosed := hbefore i hi
      cases i <;> simp_all [Issue.isUnclosed, Issue.isWarning]
    cases hwarning : i.isWarning with
    | true => simp [ofIssues, add?, addWarning, List.filter_append, hi, hwarning, hwarnings]
    | false => simp [ofIssues, add?, addError, List.filter_append, hi, hwarning, hfirst]

end Validation

namespace Registry

def entersRegion (r : Registry) (t : Tag) : Bool := r.opensRegion t && !t.closing

def leavesRegion (r : Registry) (t : Tag) : Bool := r.opensRegion t && t.closing

/-- Tags of one name paired, each in one region at most, so that no two regions cross. -/
structure Pairs (r : Registry) (tags : List Tag) (regions : List Region) : Prop where
  opening : ∀ p ∈ regions, p.opening ∈ tags ∧ r.entersRegion p.opening
  closing : ∀ p ∈ regions, p.closing ∈ tags ∧ r.leavesRegion p.closing
  name : ∀ p ∈ regions, p.opening.name = p.closing.name
  order : ∀ p ∈ regions, p.opening.start < p.closing.start
  apart : regions.Pairwise fun p q => p.opening ≠ q.opening ∧ p.closing ≠ q.closing
  nested : ∀ p ∈ regions, ∀ q ∈ regions, p.opening.start < q.opening.start →
    q.opening.start < p.closing.start → q.closing.start < p.closing.start

/-- Whether `o` opens a region before `t`, and no tag before `t` closes it. -/
def isOpenAt (r : Registry) (regions : List Region) (t o : Tag) : Bool :=
  r.entersRegion o && decide (o.start < t.start) &&
    !regions.any fun p => p.opening = o && decide (p.closing.start < t.start)

/-- What is to be said about a tag. -/
def issue? (r : Registry) (tags : List Tag) (regions : List Region) (t : Tag) : Option Issue :=
  if r.entersRegion t then
    if t ∈ regions.map Region.opening then none else some (.unclosedTag t.name t.start)
  else if r.leavesRegion t then
    if t ∈ regions.map Region.closing then none
    else
      let expected := (tags.filter (r.isOpenAt regions t)).getLast?.map Tag.name
      some (.mismatchedClosing t.name expected t.start)
  else if !r.has t.name then some (.unknownTag t.name t.start)
  else if t.closing then some (.closingNonRegion t.name t.start)
  else none

section
variable {r : Registry} {tags rest : List Tag} {regions : List Region} {t : Tag} {i : Issue}
  {opened : List (String × Nat)}

theorem offset_of_issue? (h : r.issue? tags regions t = some i) : i.offset = t.start := by
  unfold issue? at h
  split_ifs at h <;> cases h <;> rfl

theorem isUnclosed_of_issue? (h : r.issue? tags regions t = some i) :
    i.isUnclosed = r.entersRegion t := by
  unfold issue? at h
  split_ifs at h with henters <;> cases h <;> simp [Issue.isUnclosed, henters]

theorem entersRegion_iff : r.entersRegion t ↔ r.opensRegion t ∧ t.closing = false := by
  simp [entersRegion]

theorem leavesRegion_iff : r.leavesRegion t ↔ r.opensRegion t ∧ t.closing := by
  simp [leavesRegion]

theorem entersRegion_eq_false (h : r.leavesRegion t) : r.entersRegion t = false := by
  simp [entersRegion, (leavesRegion_iff.mp h).2]

theorem issue?_congr {tags' : List Tag} {regions' : List Region}
    (hopening : t ∈ regions.map Region.opening ↔ t ∈ regions'.map Region.opening)
    (hclosing : t ∈ regions.map Region.closing ↔ t ∈ regions'.map Region.closing)
    (hopen : tags.filter (r.isOpenAt regions t) = tags'.filter (r.isOpenAt regions' t)) :
    r.issue? tags regions t = r.issue? tags' regions' t := by
  simp only [issue?, hopening, hclosing, hopen]

theorem exists_handler (h : r.opensRegion t) :
    ∃ handler, r.get? t.name = some handler ∧ handler.isRegion := by
  rwa [opensRegion, Option.any_eq_true] at h

theorem check_of_entersRegion (h : r.entersRegion t) :
    r.check opened (t :: rest) = r.check ((t.name, t.start) :: opened) rest := by
  obtain ⟨hopens, hclosing⟩ := entersRegion_iff.mp h
  obtain ⟨handler, hget, hregion⟩ := exists_handler hopens
  rw [check.eq_def]
  simp [hget, hregion, hclosing]

theorem check_of_leavesRegion (h : r.leavesRegion t) (start : Nat) :
    r.check ((t.name, start) :: opened) (t :: rest) = r.check opened rest := by
  obtain ⟨hopens, hclosing⟩ := leavesRegion_iff.mp h
  obtain ⟨handler, hget, hregion⟩ := exists_handler hopens
  rw [check.eq_def]
  simp [hget, hregion, hclosing]

theorem check_of_mismatch (h : r.leavesRegion t) (hname : opened.head?.map Prod.fst ≠ some t.name) :
    r.check opened (t :: rest) = (r.check opened rest).add?
      (some (.mismatchedClosing t.name (opened.head?.map Prod.fst) t.start)) := by
  obtain ⟨hopens, hclosing⟩ := leavesRegion_iff.mp h
  obtain ⟨handler, hget, hregion⟩ := exists_handler hopens
  rw [check.eq_def]
  cases opened with
  | nil =>
    simp only [hget, hregion, hclosing]
    rfl
  | cons innermost outer =>
    have hne : innermost.1 ≠ t.name := by simpa using hname
    simp only [hget, hregion, hclosing, hne]
    rfl

/-- Other tags leave the open regions as they are. -/
theorem check_of_eq_false (henters : r.entersRegion t = false)
    (hleaves : r.leavesRegion t = false) :
    r.check opened (t :: rest) = (r.check opened rest).add? (r.issue? tags regions t) := by
  rw [check.eq_def, issue?, henters, hleaves, has_eq_isSome]
  cases hget : r.get? t.name with
  | none =>
    simp only [hget]
    rfl
  | some h =>
    have hregion : h.isRegion = false := by
      rw [← Bool.not_eq_true]
      intro hregion
      simp_all [entersRegion, leavesRegion, opensRegion]
    cases hclosing : t.closing with
    | false => simp [hget, hregion, hclosing, Validation.add?]
    | true => simp [hget, hregion, hclosing, Validation.add?, Issue.isWarning]

end

/-- The tags are paired, and what the validator finds is what is to be said about each. -/
structure Reports (r : Registry) (tags : List Tag) (regions : List Region) (v : Validation) :
    Prop where
  pairs : r.Pairs tags regions
  eq : v = .ofIssues (tags.filterMap (r.issue? tags regions))

section
variable {r : Registry} {tags opened before behind : List Tag} {regions : List Region} {t o : Tag}
  {v : Validation}

theorem Pairs.insert (h : r.Pairs (before ++ behind) regions) :
    r.Pairs (before ++ t :: behind) regions := by
  have hmem {u : Tag} (hu : u ∈ before ++ behind) : u ∈ before ++ t :: behind := by
    rw [List.mem_append] at hu ⊢
    exact hu.imp_right (List.mem_cons_of_mem _)
  exact { h with
    opening := fun p hp => ⟨hmem (h.opening p hp).1, (h.opening p hp).2⟩
    closing := fun p hp => ⟨hmem (h.closing p hp).1, (h.closing p hp).2⟩ }

/-- A tag that opens nothing has a say only in what is said about it. -/
theorem Reports.insert (h : r.Reports (before ++ behind) regions v)
    (hbefore : ∀ o ∈ before, r.entersRegion o) (ht : r.entersRegion t = false) :
    r.Reports (before ++ t :: behind) regions
      (v.add? (r.issue? (before ++ t :: behind) regions t)) := by
  have hissue : r.issue? (before ++ t :: behind) regions = r.issue? (before ++ behind) regions := by
    funext u
    refine issue?_congr .rfl .rfl ?_
    simp [List.filter_append, isOpenAt, ht]
  have hone (found : Tag → Option Issue) : [t].filterMap found = (found t).toList := by
    rw [List.filterMap_cons]
    cases found t <;> rfl
  refine ⟨h.pairs.insert, ?_⟩
  rw [h.eq, hissue, List.filterMap_append, List.filterMap_append, ← List.singleton_append,
    List.filterMap_append, hone]
  refine (Validation.ofIssues_insert (fun i hi => ?_) fun i hi => ?_).symm
  · obtain ⟨o, ho, hio⟩ := List.mem_filterMap.mp hi
    exact (isUnclosed_of_issue? hio).trans (hbefore o ho)
  · exact (isUnclosed_of_issue? hi).trans ht

theorem isOpenAt_iff : r.isOpenAt regions t o ↔ r.entersRegion o ∧ o.start < t.start ∧
    ∀ p ∈ regions, p.opening = o → t.start ≤ p.closing.start := by
  simp [isOpenAt, and_assoc]

theorem Pairs.closing_mem (h : r.Pairs (before ++ behind) regions)
    (hbefore : ∀ o ∈ before, r.entersRegion o) : ∀ p ∈ regions, p.closing ∈ behind := by
  intro p hp
  obtain ⟨hmem, hleaves⟩ := h.closing p hp
  obtain hmem | hmem := List.mem_append.mp hmem
  · exact absurd (hbefore _ hmem) (by simp [entersRegion_eq_false hleaves])
  · exact hmem

/-- Open at a tag before which no region ends are all that open before it. -/
theorem Pairs.filter_isOpenAt (h : r.Pairs (before ++ behind) regions)
    (hbefore : ∀ o ∈ before, r.entersRegion o)
    (hsorted : (before ++ t :: behind).Pairwise fun t u => t.start < u.start) :
    (before ++ t :: behind).filter (r.isOpenAt regions t) = before := by
  rw [List.pairwise_append, List.pairwise_cons] at hsorted
  obtain ⟨-, ⟨hlater, -⟩, hearlier⟩ := hsorted
  have hopen : before.filter (r.isOpenAt regions t) = before := by
    refine List.filter_eq_self.mpr fun o ho => isOpenAt_iff.mpr ?_
    refine ⟨hbefore o ho, hearlier o ho t List.mem_cons_self, fun p hp _ => ?_⟩
    exact Nat.le_of_lt (hlater _ (h.closing_mem hbefore p hp))
  have hnone : (t :: behind).filter (r.isOpenAt regions t) = [] := by
    refine List.filter_eq_nil_iff.mpr fun u hu hopen => ?_
    have hlt := (isOpenAt_iff.mp hopen).2.1
    obtain rfl | hu := List.mem_cons.mp hu
    · omega
    · have := hlater u hu
      omega
  rw [List.filter_append, hopen, hnone, List.append_nil]

/-- A closing tag before which no region ends is amiss. -/
theorem Pairs.issue?_of_leavesRegion (h : r.Pairs (opened.reverse ++ behind) regions)
    (hopened : ∀ o ∈ opened, r.entersRegion o)
    (hsorted : (opened.reverse ++ t :: behind).Pairwise fun t u => t.start < u.start)
    (ht : r.leavesRegion t) : r.issue? (opened.reverse ++ t :: behind) regions t =
      some (.mismatchedClosing t.name (opened.head?.map Tag.name) t.start) := by
  have hbefore : ∀ o ∈ opened.reverse, r.entersRegion o := by simpa using hopened
  have hopen := h.filter_isOpenAt hbefore hsorted
  have hfree : t ∉ regions.map Region.closing := by
    rw [List.pairwise_append, List.pairwise_cons] at hsorted
    intro hmem
    obtain ⟨p, hp, rfl⟩ := List.mem_map.mp hmem
    exact absurd (hsorted.2.1.1 _ (h.closing_mem hbefore p hp)) (Nat.lt_irrefl _)
  simp [issue?, entersRegion_eq_false ht, ht, hfree, hopen]

/-- Tags in order lie before or behind two of them that are side by side. -/
theorem outside_of_pairwise
    (hsorted : (before ++ o :: t :: behind).Pairwise fun t u => t.start < u.start) :
    o.start < t.start ∧ (∀ u ∈ behind, t.start < u.start) ∧
      ∀ u ∈ before ++ behind, u.start < o.start ∨ t.start < u.start := by
  simp only [List.pairwise_append, List.pairwise_cons, List.forall_mem_cons] at hsorted
  obtain ⟨-, ⟨⟨horder, -⟩, hlater, -⟩, hearlier⟩ := hsorted
  refine ⟨horder, hlater, fun u hu => ?_⟩
  obtain hu | hu := List.mem_append.mp hu
  · exact .inl (hearlier u hu).1
  · exact .inr (hlater u hu)

/-- Two tags side by side, inside the regions of `before`. -/
theorem Pairs.close (h : r.Pairs (before ++ behind) regions)
    (hbefore : ∀ o ∈ before, r.entersRegion o)
    (hsorted : (before ++ o :: t :: behind).Pairwise fun t u => t.start < u.start)
    (ho : r.entersRegion o) (ht : r.leavesRegion t) (hname : o.name = t.name) :
    r.Pairs (before ++ o :: t :: behind) (⟨o, t⟩ :: regions) := by
  have hmore : r.Pairs (before ++ o :: t :: behind) regions := h.insert.insert
  -- No other region opens between the two tags, and none closes before the second.
  obtain ⟨horder, hlater, houtside⟩ := outside_of_pairwise hsorted
  have hopening : ∀ p ∈ regions, p.opening.start < o.start ∨ t.start < p.opening.start :=
    fun p hp => houtside _ (h.opening p hp).1
  have hclosing : ∀ p ∈ regions, t.start < p.closing.start :=
    fun p hp => hlater _ (h.closing_mem hbefore p hp)
  refine ⟨?_, ?_, ?_, ?_, ?_, ?_⟩
  · exact List.forall_mem_cons.mpr ⟨⟨by simp, ho⟩, hmore.opening⟩
  · exact List.forall_mem_cons.mpr ⟨⟨by simp, ht⟩, hmore.closing⟩
  · exact List.forall_mem_cons.mpr ⟨hname, h.name⟩
  · exact List.forall_mem_cons.mpr ⟨horder, h.order⟩
  · refine .cons (fun p hp => ⟨fun heq => ?_, fun heq => ?_⟩) h.apart
    · have hstart : o.start = p.opening.start := congrArg Tag.start heq
      have := hopening p hp
      omega
    · have hstart : t.start = p.closing.start := congrArg Tag.start heq
      have := hclosing p hp
      omega
  · intro p hp q hq
    obtain rfl | hp := List.mem_cons.mp hp
    · obtain rfl | hq := List.mem_cons.mp hq
      · exact fun hlt => absurd hlt (Nat.lt_irrefl _)
      · have := hopening q hq
        intro hinside hbehind
        dsimp only at hinside hbehind
        omega
    · obtain rfl | hq := List.mem_cons.mp hq
      · exact fun _ _ => hclosing p hp
      · exact h.nested p hp q hq

theorem Reports.close (h : r.Reports (before ++ behind) regions v)
    (hbefore : ∀ o ∈ before, r.entersRegion o)
    (hsorted : (before ++ o :: t :: behind).Pairwise fun t u => t.start < u.start)
    (ho : r.entersRegion o) (ht : r.leavesRegion t) (hname : o.name = t.name) :
    r.Reports (before ++ o :: t :: behind) (⟨o, t⟩ :: regions) v := by
  refine ⟨h.pairs.close hbefore hsorted ho ht hname, ?_⟩
  obtain ⟨horder, -, houtside⟩ := outside_of_pairwise hsorted
  have hne : ∀ u ∈ before ++ behind, u ≠ o ∧ u ≠ t := by
    intro u hu
    have := houtside u hu
    constructor <;> rintro rfl <;> omega
  -- Once `t` has closed `o`, neither is open at any other tag.
  have hissue : ∀ u ∈ before ++ behind,
      r.issue? (before ++ o :: t :: behind) (⟨o, t⟩ :: regions) u =
        r.issue? (before ++ behind) regions u := by
    intro u hu
    obtain ⟨hneo, hnet⟩ := hne u hu
    refine issue?_congr (by simp [hneo]) (by simp [hnet]) ?_
    have hopening : ¬r.isOpenAt (⟨o, t⟩ :: regions) u o := by
      intro hopen
      obtain ⟨-, hlt, hclosed⟩ := isOpenAt_iff.mp hopen
      have hlate : u.start ≤ t.start := hclosed _ List.mem_cons_self rfl
      have := houtside u hu
      omega
    have hclosing : ¬r.isOpenAt (⟨o, t⟩ :: regions) u t := by
      simp [isOpenAt, entersRegion_eq_false ht]
    have hsame : ∀ w ∈ before ++ behind,
        r.isOpenAt (⟨o, t⟩ :: regions) u w = r.isOpenAt regions u w := by
      intro w hw
      simp [isOpenAt, (hne w hw).1.symm]
    rw [← List.filter_congr hsame, List.filter_append, List.filter_append,
      List.filter_cons_of_neg hopening, List.filter_cons_of_neg hclosing]
  have hopening : r.issue? (before ++ o :: t :: behind) (⟨o, t⟩ :: regions) o = none := by
    simp [issue?, ho]
  have hclosing : r.issue? (before ++ o :: t :: behind) (⟨o, t⟩ :: regions) t = none := by
    simp [issue?, ht, entersRegion_eq_false ht]
  rw [h.eq, ← List.filterMap_congr hissue, List.filterMap_append, List.filterMap_append,
    List.filterMap_cons_none hopening, List.filterMap_cons_none hclosing]

/-- At the end of the tags all regions still open are unclosed. -/
theorem reports_of_forall_entersRegion (h : ∀ o ∈ tags, r.entersRegion o) :
    r.Reports tags [] { errors := tags.map fun o => .unclosedTag o.name o.start } := by
  refine ⟨⟨by simp, by simp, by simp, by simp, .nil, by simp⟩, ?_⟩
  have hissues : tags.filterMap (r.issue? tags []) =
      tags.map fun o => .unclosedTag o.name o.start := by
    rw [← List.filterMap_eq_map, List.filterMap_congr fun o ho => ?_]
    simp [issue?, h o ho]
  rw [hissues, Validation.ofIssues]
  simp [List.filter_map, Function.comp_def, Issue.isUnclosed, Issue.isWarning]

/-- What the validator finds inside the regions `opened`. -/
theorem exists_reports_check (r : Registry) (opened rest : List Tag)
    (hopened : ∀ o ∈ opened, r.entersRegion o)
    (hsorted : (opened.reverse ++ rest).Pairwise fun t u => t.start < u.start) :
    ∃ regions, r.Reports (opened.reverse ++ rest) regions
      (r.check (opened.map fun t => (t.name, t.start)) rest) := by
  induction rest generalizing opened with
  | nil =>
    refine ⟨[], ?_⟩
    rw [check, ← List.map_reverse, List.map_map, List.append_nil]
    exact reports_of_forall_entersRegion (by simpa using hopened)
  | cons t rest ih =>
    have hbefore : ∀ o ∈ opened.reverse, r.entersRegion o := by simpa using hopened
    have hrest : (opened.reverse ++ rest).Pairwise fun t u => t.start < u.start :=
      hsorted.sublist ((List.Sublist.refl _).append (List.sublist_cons_self t rest))
    cases henters : r.entersRegion t with
    | true =>
      obtain ⟨regions, hreports⟩ :=
        ih (t :: opened) (List.forall_mem_cons.mpr ⟨henters, hopened⟩) (by simpa using hsorted)
      refine ⟨regions, ?_⟩
      rw [check_of_entersRegion henters]
      simpa using hreports
    | false =>
      cases hleaves : r.leavesRegion t with
      | false =>
        obtain ⟨regions, hreports⟩ := ih opened hopened hrest
        refine ⟨regions, ?_⟩
        rw [check_of_eq_false henters hleaves]
        exact hreports.insert hbefore henters
      | true =>
        by_cases hname : opened.head?.map Tag.name = some t.name
        · cases opened with
          | nil => cases hname
          | cons o outer =>
            obtain ⟨ho, houter⟩ := List.forall_mem_cons.mp hopened
            rw [List.reverse_cons, List.append_assoc, List.singleton_append] at hsorted hrest ⊢
            obtain ⟨regions, hreports⟩ := ih outer houter
              (hrest.sublist ((List.Sublist.refl _).append (List.sublist_cons_self o rest)))
            refine ⟨⟨o, t⟩ :: regions, ?_⟩
            have hname : o.name = t.name := Option.some.inj hname
            rw [List.map_cons, hname, check_of_leavesRegion hleaves]
            exact hreports.close (by simpa using houter) hsorted ho hleaves hname
        -- It closes what is not innermost: that is an issue, and nothing is closed by it.
        · obtain ⟨regions, hreports⟩ := ih opened hopened hrest
          refine ⟨regions, ?_⟩
          have hexpected : (opened.map fun t => (t.name, t.start)).head?.map Prod.fst =
              opened.head?.map Tag.name := by
            rw [List.head?_map, Option.map_map]
            rfl
          rw [check_of_mismatch hleaves (hexpected ▸ hname), hexpected,
            ← hreports.pairs.issue?_of_leavesRegion hopened hsorted hleaves]
          exact hreports.insert hbefore henters

/-- What the validator reports of a text is what is to be said about each of its tags, for some
pairing of the tags that close regions with the tags that they close. It is said from left to right,
of no tag twice, and with the place where the tag starts. -/
theorem exists_reports_validate (r : Registry) (text : String) : ∃ regions,
    r.Reports (Tag.lex text) regions (r.validate text) ∧
    (∀ t ∈ Tag.lex text, ∀ i ∈ r.issue? (Tag.lex text) regions t, i.offset = t.start) ∧
    (((Tag.lex text).filterMap (r.issue? (Tag.lex text) regions)).map Issue.offset).Pairwise
      (· < ·) := by
  have hsorted := (Tag.pairwise_lex text).imp And.left
  obtain ⟨regions, hreports⟩ := exists_reports_check r [] (Tag.lex text) (by simp) hsorted
  refine ⟨regions, hreports, fun t _ i hi => offset_of_issue? hi, ?_⟩
  rw [List.pairwise_map, List.pairwise_filterMap]
  refine hsorted.imp fun hlt i hi j hj => ?_
  rw [offset_of_issue? hi, offset_of_issue? hj]
  exact hlt

-- A mismatched closing tag leaves open what it finds open: `[/b]` still closes `[b]`.
example : (withBuiltins .own).validate "[/b][x][speedregion][b][/speedregion][/br][/b]" =
    { errors := [.mismatchedClosing "b" none 0, .unknownTag "x" 4,
        .mismatchedClosing "speedregion" (some "b") 23, .unclosedTag "speedregion" 7]
      warnings := [.closingNonRegion "br" 37] } := by
  decide +kernel

end
end Registry
end TextReveal
