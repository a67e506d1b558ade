import Mathlib.Data.List.Basic
import Mathlib.Data.List.Induction
import TextReveal.Proofs.Builtins
import TextReveal.Proofs.Nesting
/-!
Registries over time. Whatever is registered, unregistered, cleared and reset, a name finds the
handler that was put under it last, in any spelling, if it has not been taken away since.
-/
namespace TextReveal.Registry

/-- What an owner may do to a registry. -/
inductive Change where
  | register (h : Handler)
  | unregister (name : String)
  | clear
  | reset

def change (r : Registry) : Change → Registry
  | .register h => r.register h
  | .unregister name => (r.unregister name).2
  | .clear => r.clear
  | .reset => r.reset

inductive Write where
  | put (h : Handler)
  | take (name : String)
  | wipe

/-- What a change comes to. A reset puts the built-in handlers where everything has been taken
away. -/
def Change.writes (hub : HubRef) : Change → List Write
  | register h => [.put h]
  | unregister name => [.take name]
  | clear => [.wipe]
  | reset => .wipe :: (builtins hub).map .put

/-- Whether a write decides what is under a key from then on. -/
def Write.Decides (key : String) : Write → Prop
  | put h => Name.normalize h.name = key
  | take name => Name.normalize name = key
  | wipe => True

/-- The handler is the last one put under the key, and nothing has taken it away since. -/
def Stands (writes : List Write) (key : String) (h : Handler) : Prop :=
  ∃ before behind, writes = before ++ .put h :: behind ∧ Name.normalize h.name = key ∧
    ∀ w ∈ behind, ¬w.Decides key

/-- What holds of a registry that has come about by these writes. -/
structure Reflects (r : Registry) (writes : List Write) : Prop where
  get? : ∀ name h, r.get? name = some h ↔ Stands writes (Name.normalize name) h
  has : ∀ name, r.has name = (r.get? name).isSome
  unregister : ∀ name, (r.unregister name).1 = (r.get? name).isSome ∧
    ∀ other, (r.unregister name).2.get? other =
      if Name.normalize other = Name.normalize name then none else r.get? other
  increasing : r.names.Pairwise (· < ·)
  listed : ∀ key, key ∈ r.names ↔ ∃ h, Stands writes key h
  /-- A key that is listed is a name of its own handler. -/
  usable : ∀ key ∈ r.names, r.has key = true ∧ (r.unregister key).1 = true
  size : r.size = r.names.length

section
variable {writes : List Write} {w : Write} {key : String} {h : Handler}

theorem not_stands_nil : ¬Stands [] key h := by
  rintro ⟨before, behind, hsplit, -⟩
  exact List.append_ne_nil_of_right_ne_nil before (List.cons_ne_nil _ behind) hsplit.symm

/-- The last write says what is under a key, or leaves it to those before it. -/
theorem stands_concat : Stands (writes ++ [w]) key h ↔
    w = .put h ∧ w.Decides key ∨ ¬w.Decides key ∧ Stands writes key h := by
  constructor
  · rintro ⟨before, behind, hsplit, hname, hlater⟩
    obtain rfl | ⟨behind, last, rfl⟩ := List.eq_nil_or_concat' behind
    · obtain ⟨-, hw⟩ := List.append_inj' hsplit rfl
      obtain rfl : w = .put h := List.singleton_inj.mp hw
      exact .inl ⟨rfl, hname⟩
    · rw [← List.cons_append, ← List.append_assoc] at hsplit
      obtain ⟨rfl, hw⟩ := List.append_inj' hsplit rfl
      obtain rfl : w = last := List.singleton_inj.mp hw
      exact .inr ⟨hlater w (by simp), before, behind, rfl, hname,
        fun w hw => hlater w (List.mem_append_left _ hw)⟩
  · rintro (⟨rfl, hname⟩ | ⟨hsilent, before, behind, rfl, hname, hlater⟩)
    · exact ⟨writes, [], rfl, hname, List.forall_mem_nil _⟩
    · refine ⟨before, behind ++ [w], by simp, hname, fun v hv => ?_⟩
      obtain hv | hv := List.mem_append.mp hv
      · exact hlater v hv
      · rwa [List.mem_singleton.mp hv]

end

def write (r : Registry) : Write → Registry
  | .put h => r.register h
  | .take name => (r.unregister name).2
  | .wipe => r.clear

theorem getElem?_write (r : Registry) (w : Write) (key : String) : (r.write w).handlers[key]? =
    match w with
    | .put h => if Name.normalize h.name = key then some h else r.handlers[key]?
    | .take name => if Name.normalize name = key then none else r.handlers[key]?
    | .wipe => none := by
  cases w with
  | put h =>
    rw [write, register, Std.TreeMap.getElem?_insert]
    simp only [Std.LawfulEqCmp.compare_eq_iff_eq]
  | take name =>
    rw [write, Registry.unregister, Std.TreeMap.getElem?_erase]
    simp only [Std.LawfulEqCmp.compare_eq_iff_eq]
  | wipe => exact Std.TreeMap.getElem?_emptyc

/-- The last write decides, from an empty registry on. -/
theorem getElem?_foldl_write (hub : HubRef) (writes : List Write) (key : String) (h : Handler) :
    (writes.foldl write (empty hub)).handlers[key]? = some h ↔ Stands writes key h := by
  induction writes using List.reverseRecOn with
  | nil =>
    have hempty : ((empty hub).handlers[key]?) = none := Std.TreeMap.getElem?_emptyc
    simp [hempty, not_stands_nil]
  | append_singleton writes w ih =>
    rw [List.foldl_concat, getElem?_write, stands_concat]
    cases w with
    | put h' => by_cases hname : Name.normalize h'.name = key <;> simp [Write.Decides, hname, ih]
    | take name => by_cases hname : Name.normalize name = key <;> simp [Write.Decides, hname, ih]
    | wipe => simp [Write.Decides]

theorem normalize_name_of_mem_builtins {hub : HubRef} {h : Handler} (hmem : h ∈ builtins hub) :
    Name.normalize h.name = h.name := by
  obtain ⟨name, hb⟩ := mem_builtins.mp hmem
  rw [hb.name_eq]
  cases hb with
  | markup hm =>
    simp only [styleNames, List.mem_cons, List.not_mem_nil, or_false] at hm
    obtain rfl | rfl | rfl | rfl | rfl := hm <;> decide +kernel
  | lineBreak hm =>
    simp only [List.mem_cons, List.not_mem_nil, or_false] at hm
    obtain rfl | rfl := hm <;> decide +kernel
  | speed hm => subst hm; decide +kernel
  | speedRegion hm => subst hm; decide +kernel
  | pause hm => subst hm; decide +kernel
  | clear hm => subst hm; decide +kernel
  | action hm => subst hm; decide +kernel

theorem foldl_put {handlers : List Handler}
    (hnames : ∀ h ∈ handlers, Name.normalize h.name = h.name) (r : Registry) :
    (handlers.map Write.put).foldl write r =
      { r with handlers := handlers.foldl (fun m h => m.insert h.name h) r.handlers } := by
  induction handlers generalizing r with
  | nil => rfl
  | cons h rest ih =>
    obtain ⟨hname, hrest⟩ := List.forall_mem_cons.mp hnames
    rw [List.map_cons, List.foldl_cons, ih hrest, write, register, hname]
    rfl

/-- A change does its writes. The built-in handlers go under their names as they are, which are
their keys. -/
theorem change_eq (r : Registry) (c : Change) : r.change c = (c.writes r.hub).foldl write r := by
  cases c with
  | register h => rfl
  | unregister name => rfl
  | clear => rfl
  | reset =>
    rw [Change.writes, List.foldl_cons, foldl_put fun _ => normalize_name_of_mem_builtins]
    rfl

theorem hub_foldl_write (writes : List Write) (r : Registry) :
    (writes.foldl write r).hub = r.hub := by
  induction writes generalizing r with
  | nil => rfl
  | cons w writes ih =>
    rw [List.foldl_cons, ih]
    cases w <;> rfl

theorem foldl_change (changes : List Change) (r : Registry) :
    changes.foldl change r = (changes.flatMap (Change.writes r.hub)).foldl write r := by
  induction changes generalizing r with
  | nil => rfl
  | cons c changes ih =>
    rw [List.foldl_cons, ih, change_eq, hub_foldl_write, List.flatMap_cons, List.foldl_append]

theorem get?_unregister (r : Registry) (name other : String) :
    (r.unregister name).2.get? other =
      if Name.normalize other = Name.normalize name then none else r.get? other := by
  rw [Registry.get?, show (r.unregister name).2 = r.write (.take name) from rfl, getElem?_write]
  simp only [eq_comm]
  rfl

theorem mem_names_iff {r : Registry} {key : String} :
    key ∈ r.names ↔ ∃ h, r.handlers[key]? = some h := by
  rw [names, Std.TreeMap.mem_keys, Std.TreeMap.mem_iff_isSome_getElem?, Option.isSome_iff_exists]

theorem names_increasing (r : Registry) : r.names.Pairwise (· < ·) := by
  have hordered : r.names.Pairwise fun a b => compare a b = .lt := Std.TreeMap.ordered_keys
  exact hordered.imp fun h => compareOfLessAndEq_eq_lt.mp h

theorem reflects_foldl_write (hub : HubRef) (writes : List Write) :
    Reflects (writes.foldl write (empty hub)) writes := by
  have hstands := getElem?_foldl_write hub writes
  generalize writes.foldl write (empty hub) = r at hstands
  have hlisted (key : String) : key ∈ r.names ↔ ∃ h, Stands writes key h := by
    simp only [mem_names_iff, hstands]
  refine ⟨fun name h => hstands _ h, has_eq_isSome r,
    fun name => ⟨has_eq_isSome r name, get?_unregister r name⟩, names_increasing r, hlisted,
    fun key hkey => ?_, Std.TreeMap.length_keys.symm⟩
  -- Whatever is under the key has a name whose normal form it is, so looking it up changes nothing.
  obtain ⟨h, before, behind, -, hname, -⟩ := (hlisted key).mp hkey
  have hfound : r.has key = true := by
    obtain ⟨h, hget⟩ := mem_names_iff.mp hkey
    rw [has_eq_isSome, Registry.get?, ← hname, Name.normalize_normalize, hname, hget]
    rfl
  exact ⟨hfound, hfound⟩

/-- A registry is a map of normalized names in which the last write wins, whether it begins empty or
with the built-in handlers and whatever is done to it. A reset makes it what it was with the
built-in handlers, whatever came before. -/
theorem reflects_changes (hub : HubRef) (changes : List Change) :
    Reflects (changes.foldl change (empty hub)) (changes.flatMap (Change.writes hub)) ∧
    Reflects (changes.foldl change (withBuiltins hub))
      (Change.reset.writes hub ++ changes.flatMap (Change.writes hub)) ∧
    (changes.foldl change (empty hub)).reset = withBuiltins hub ∧
    (changes.foldl change (withBuiltins hub)).reset = withBuiltins hub := by
  have hbuiltins : withBuiltins hub = (Change.reset.writes hub).foldl write (empty hub) :=
    change_eq (empty hub) .reset
  have hreset (r : Registry) (hr : r.hub = hub) : r.reset = withBuiltins hub := by
    rw [← hr]
    rfl
  have hempty : changes.foldl change (empty hub) = _ := foldl_change changes (empty hub)
  have hfull : changes.foldl change (withBuiltins hub) = _ :=
    foldl_change changes (withBuiltins hub)
  refine ⟨?_, ?_, hreset _ ?_, hreset _ ?_⟩
  · rw [hempty]
    exact reflects_foldl_write hub _
  · rw [hfull, hbuiltins, ← List.foldl_append]
    exact reflects_foldl_write hub _
  · rw [hempty, hub_foldl_write]
    rfl
  · rw [hfull, hub_foldl_write]
    rfl

end TextReveal.Registry
