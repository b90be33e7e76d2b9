import HakoniwaCorePro.Kahn
import HakoniwaCorePro.LaunchSpec
import Mathlib.Data.List.Perm.Subperm
import Mathlib.Tactic.Ring

/-!
# The order of the launch

`LauncherSpec.toposort_assets`. The graph is kept by name, the assets of the file are objects: an
asset is known by its place in the list, two entries of one name are two assets.
-/

namespace HakoniwaCorePro
namespace Launch

open Kahn Relation

-- names are counted by deciding their equality, as the library does
local instance : BEq Text := instBEqOfDecidableEq

inductive TopoError
  | unknownDependency (asset dependency : Text)
  | cycle
  | keyError
  deriving DecidableEq

/-- The text of a `ValueError`. -/
def TopoError.text : TopoError → Option Text
  | .unknownDependency asset dependency =>
    some (lit "depends_on refers to unknown asset: " ++ asset ++ lit " -> " ++ dependency)
  | .cycle => some (lit "depends_on has a cycle")
  | .keyError => none

/-- `{a.name: a for a in self.assets}`: of a name, the last asset that has it. -/
def nameToAsset (assets : List Asset) : Text → Option ℕ :=
  assets.zipIdx.foldl (fun known p => Function.update known p.1.name (some p.2)) fun _ => none

structure Links where
  indeg : Text → ℤ
  adj : Text → List Text

def Links.add (name dep : Text) (g : Links) : Links where
  indeg := Function.update g.indeg name (g.indeg name + 1)
  adj := Function.update g.adj dep (g.adj dep ++ [name])

/-- The loop over the dependencies of an asset. -/
def linkDeps (known : Text → Option ℕ) (name : Text) : List Text → Links → Except TopoError Links
  | [], g => .ok g
  | dep :: deps, g =>
    if (known dep).isNone then .error (.unknownDependency name dep)
    else linkDeps known name deps (g.add name dep)

def linkAssets (known : Text → Option ℕ) : List Asset → Links → Except TopoError Links
  | [], g => .ok g
  | a :: assets, g => do linkAssets known assets (← linkDeps known a.name a.dependsOn g)

/-- The loop over `adj[n]`, on the degrees and the queue. -/
def release : List Text → (Text → ℤ) × List Text → (Text → ℤ) × List Text
  | [], s => s
  | m :: ms, (indeg, queue) =>
    release ms (Function.update indeg m (indeg m - 1), if indeg m - 1 = 0 then queue ++ [m] else queue)

/-- The loop over the queue, for at most `fuel` rounds. -/
def drain (adj : Text → List Text) : ℕ → (Text → ℤ) → List Text → List Text →
    Option (List Text)
  | _, _, [], result => some result
  | 0, _, _ :: _, _ => none
  | fuel + 1, indeg, n :: queue, result =>
    let s := release (adj n) (indeg, queue)
    drain adj fuel s.1 s.2 (result ++ [n])

/-- `none` is a loop that has not ended in as many rounds as there are assets. -/
def toposortAssets (assets : List Asset) : Option (Except TopoError (List ℕ)) :=
  let known := nameToAsset assets
  match linkAssets known assets ⟨fun _ => 0, fun _ => []⟩ with
  | .error e => some (.error e)
  | .ok g =>
    let queue := (assets.filter fun a => g.indeg a.name = 0).map Asset.name
    (drain g.adj assets.length g.indeg queue []).map fun result =>
      if result.length ≠ assets.length then .error .cycle
      else
        match result.mapM known with
        | none => .error .keyError
        | some order => .ok order

/-- The asset at `i` lists the asset at `j` as a dependency. -/
def Needs (assets : List Asset) (i j : ℕ) : Prop :=
  ∃ a b, assets[i]? = some a ∧ assets[j]? = some b ∧ b.name ∈ a.dependsOn

def HasCycle (assets : List Asset) : Prop := ∃ i, TransGen (Needs assets) i i

def Known (assets : List Asset) : Prop := ∀ a ∈ assets, ∀ d ∈ a.dependsOn, d ∈ assets.map Asset.name

/-- An unknown dependency is refused, otherwise a cycle is refused and nothing else is; an order has every
asset once, behind all it depends on, and is the order of the file if there are no dependencies. -/
structure Sorts (assets : List Asset) (outcome : Except TopoError (List ℕ)) : Prop where
  unknown : ¬ Known assets ↔ ∃ a d, outcome = .error (.unknownDependency a d)
  cycle : Known assets → (outcome = .error .cycle ↔ HasCycle assets)
  order : ∀ order, outcome = .ok order → order.Perm (List.range assets.length) ∧
    (∀ l₁ i l₂, order = l₁ ++ i :: l₂ → ∀ j, Needs assets i j → j ∈ l₁) ∧
    ((∀ a ∈ assets, a.dependsOn = []) → order = List.range assets.length)
  raised : outcome ≠ .error .keyError

def depsOf (assets : List Asset) (name : Text) : List Text :=
  (assets.filter fun a => a.name = name).flatMap Asset.dependsOn

/-- A set of names that wait for each other: even when a dependency counts as often as there are assets
outside of the set with its name, no name of the set gets as many as it has dependencies. -/
def Stuck (assets : List Asset) : Prop :=
  ∃ Z : Finset Text, Z.Nonempty ∧ ∀ m ∈ Z,
    credit (depsOf assets) m ((assets.map Asset.name).filter fun n => n ∉ Z) <
      (depsOf assets m).length

/-- A name that several assets have, one of them with a dependency. -/
def RepeatedWithDeps (assets : List Asset) : Prop :=
  ∃ m, 1 < (assets.map Asset.name).count m ∧ depsOf assets m ≠ []

/-- Where sorting by name sorts the assets. -/
def Sortable (assets : List Asset) : Prop :=
  ¬ Known assets ∨ (assets.map Asset.name).Nodup ∨ Stuck assets ∨
    (RepeatedWithDeps assets ∧ HasCycle assets)

theorem nameToAsset_concat (assets : List Asset) (a : Asset) :
    nameToAsset (assets ++ [a]) = Function.update (nameToAsset assets) a.name (some assets.length) := by
  simp [nameToAsset, List.zipIdx_append]

theorem nameToAsset_isSome (assets : List Asset) (n : Text) :
    (nameToAsset assets n).isSome ↔ n ∈ assets.map Asset.name := by
  induction assets using List.reverseRecOn with
  | nil => simp [nameToAsset]
  | append_singleton assets a ih =>
    rw [nameToAsset_concat, List.map_append, List.mem_append]
    by_cases hn : n = a.name
    · simp [hn]
    · simpa [Function.update_of_ne hn, hn] using ih

theorem nameToAsset_some {assets : List Asset} {n : Text} {i : ℕ} (h : nameToAsset assets n = some i) :
    ∃ a, assets[i]? = some a ∧ a.name = n := by
  induction assets using List.reverseRecOn with
  | nil => simp [nameToAsset] at h
  | append_singleton assets a ih =>
    rw [nameToAsset_concat] at h
    by_cases hn : n = a.name
    · rw [hn, Function.update_self, Option.some.injEq] at h
      exact ⟨a, by simp [← h], hn.symm⟩
    · rw [Function.update_of_ne hn] at h
      obtain ⟨b, hb, hname⟩ := ih h
      have hlt : i < assets.length := (List.getElem?_eq_some_iff.mp hb).1
      exact ⟨b, by rw [List.getElem?_append_left hlt, hb], hname⟩

theorem depsOf_cons (a : Asset) (assets : List Asset) (m : Text) :
    depsOf (a :: assets) m = (if a.name = m then a.dependsOn else []) ++ depsOf assets m := by
  unfold depsOf
  by_cases hm : a.name = m <;> simp [hm]

theorem mem_depsOf {assets : List Asset} {m d : Text} :
    d ∈ depsOf assets m ↔ ∃ a ∈ assets, a.name = m ∧ d ∈ a.dependsOn := by
  simp [depsOf, and_assoc]

theorem name_mem_of_depsOf {assets : List Asset} {m : Text} (h : depsOf assets m ≠ []) :
    m ∈ assets.map Asset.name := by
  obtain ⟨d, hd⟩ := List.exists_mem_of_ne_nil _ h
  obtain ⟨a, ha, rfl, -⟩ := mem_depsOf.mp hd
  exact List.mem_map_of_mem ha

/-- What the loops have counted: the links of `g` and, behind them, the dependencies `ds m` of each name. -/
structure Linked (ds : Text → List Text) (g g' : Links) : Prop where
  indeg : ∀ m, g'.indeg m = g.indeg m + (ds m).length
  adj : ∀ m d, (g'.adj d).count m = (g.adj d).count m + (ds m).count d

theorem linkDeps_ok {known : Text → Option ℕ} (name : Text) {deps : List Text} {g : Links}
    (h : ∀ d ∈ deps, (known d).isSome) : ∃ g', linkDeps known name deps g = .ok g' ∧
      Linked (fun m => if name = m then deps else []) g g' := by
  induction deps generalizing g with
  | nil => exact ⟨g, rfl, ⟨by simp, by simp⟩⟩
  | cons d deps ih =>
    obtain ⟨g', hg', hlinked⟩ := ih (g := g.add name d) fun e he => h e (List.mem_cons_of_mem _ he)
    have hknown := h d List.mem_cons_self
    refine ⟨g', ?_, ?_, ?_⟩
    · rw [linkDeps, if_neg (by simpa [Option.isSome_iff_ne_none] using hknown), hg']
    · intro m
      rw [hlinked.indeg m]
      by_cases hm : name = m
      · subst hm
        simp [Links.add]
        omega
      · simp [Links.add, hm, Function.update_of_ne (Ne.symm hm)]
    · intro m e
      rw [hlinked.adj m e]
      by_cases he : e = d
      · by_cases hm : name = m
        · simp [Links.add, he, hm]
          omega
        · simp [Links.add, he, hm]
      · by_cases hm : name = m
        · simp [Links.add, Function.update_of_ne he, hm, List.count_cons_of_ne (Ne.symm he)]
        · simp [Links.add, Function.update_of_ne he, hm]

theorem linkDeps_error {known : Text → Option ℕ} (name : Text) {deps : List Text} {g : Links}
    (h : ¬ ∀ d ∈ deps, (known d).isSome) :
    ∃ d, linkDeps known name deps g = .error (.unknownDependency name d) := by
  induction deps generalizing g with
  | nil => simp at h
  | cons d deps ih =>
    rw [linkDeps]
    by_cases hd : (known d).isNone
    · exact ⟨d, if_pos hd⟩
    · rw [if_neg hd]
      have hsome : (known d).isSome := by simpa [Option.isSome_iff_ne_none] using hd
      refine ih fun hrest => h fun e he => ?_
      rcases List.mem_cons.mp he with rfl | he
      · exact hsome
      · exact hrest e he

theorem linkAssets_ok {known : Text → Option ℕ} {assets : List Asset} {g : Links}
    (h : ∀ a ∈ assets, ∀ d ∈ a.dependsOn, (known d).isSome) :
    ∃ g', linkAssets known assets g = .ok g' ∧ Linked (depsOf assets) g g' := by
  induction assets generalizing g with
  | nil => exact ⟨g, rfl, ⟨by simp [depsOf], by simp [depsOf]⟩⟩
  | cons a assets ih =>
    obtain ⟨g₁, hg₁, hlinked₁⟩ := linkDeps_ok a.name (g := g) (h a List.mem_cons_self)
    obtain ⟨g₂, hg₂, hlinked₂⟩ := ih (g := g₁) fun b hb => h b (List.mem_cons_of_mem _ hb)
    refine ⟨g₂, ?_, ?_, ?_⟩
    · rw [linkAssets, hg₁]
      exact hg₂
    · intro m
      rw [hlinked₂.indeg, hlinked₁.indeg, depsOf_cons, List.length_append]
      push_cast
      ring
    · intro m d
      rw [hlinked₂.adj, hlinked₁.adj, depsOf_cons, List.count_append, add_assoc]

theorem linkAssets_error {known : Text → Option ℕ} {assets : List Asset} {g : Links}
    (h : ¬ ∀ a ∈ assets, ∀ d ∈ a.dependsOn, (known d).isSome) :
    ∃ a d, linkAssets known assets g = .error (.unknownDependency a d) := by
  induction assets generalizing g with
  | nil => simp at h
  | cons a assets ih =>
    by_cases ha : ∀ d ∈ a.dependsOn, (known d).isSome
    · obtain ⟨g₁, hg₁, -⟩ := linkDeps_ok a.name (g := g) ha
      obtain ⟨b, d, he⟩ := ih (g := g₁) fun hrest => h fun c hc => by
        rcases List.mem_cons.mp hc with rfl | hc
        · exact ha
        · exact hrest c hc
      refine ⟨b, d, ?_⟩
      rw [linkAssets, hg₁]
      exact he
    · obtain ⟨d, hd⟩ := linkDeps_error a.name (g := g) ha
      refine ⟨a.name, d, ?_⟩
      rw [linkAssets, hd]
      rfl

section

variable {deps : Text → List Text} {free : List Text}

theorem release_waiting (ms : List Text) {spent : Text → ℕ} {indeg : Text → ℤ}
    {result queue : List Text} (h : Waiting deps free spent indeg (result ++ queue))
    (hms : ∀ m, spent m + ms.count m ≤ credit deps m (result ++ queue)) :
    Waiting deps free (fun m => spent m + ms.count m) (release ms (indeg, queue)).1
      (result ++ (release ms (indeg, queue)).2) := by
  induction ms generalizing spent indeg queue with
  | nil => simpa [release] using h
  | cons m ms ih =>
    have hone : spent m + 1 ≤ credit deps m (result ++ queue) := by
      have hm := hms m
      rw [List.count_cons_self] at hm
      omega
    have hout : (if indeg m - 1 = 0 then result ++ queue ++ [m] else result ++ queue) =
        result ++ (if indeg m - 1 = 0 then queue ++ [m] else queue) := by
      split
      · rw [List.append_assoc]
      · rfl
    have hspent := h.spend hone
    rw [hout] at hspent
    have hcount : (fun x => Function.update spent m (spent m + 1) x + ms.count x) =
        fun x => spent x + (m :: ms).count x := by
      funext x
      by_cases hx : x = m
      · subst hx
        rw [Function.update_self, List.count_cons_self]
        omega
      · rw [Function.update_of_ne hx, List.count_cons_of_ne (Ne.symm hx)]
    have hnext := ih hspent (by
      intro x
      refine (congrFun hcount x).le.trans ((hms x).trans ?_)
      rw [← hout]
      split
      · rw [credit_concat]
        exact Nat.le_add_right _ _
      · exact le_rfl)
    rw [hcount] at hnext
    exact hnext

theorem drain_waiting (adj : Text → List Text) (hadj : ∀ m n, (adj n).count m = (deps m).count n)
    {bound : ℕ} (hbound : ∀ spent indeg out, Waiting deps free spent indeg out → out.length ≤ bound)
    (fuel : ℕ) {indeg : Text → ℤ} {queue result : List Text} (hfuel : bound ≤ fuel + result.length)
    (h : Waiting deps free (fun m => credit deps m result) indeg (result ++ queue)) :
    ∃ final last, drain adj fuel indeg queue result = some final ∧
      Waiting deps free (fun m => credit deps m final) last final := by
  induction fuel generalizing indeg queue result with
  | zero =>
    have hlength := hbound _ _ _ h
    rw [List.length_append] at hlength
    obtain rfl : queue = [] := List.length_eq_zero_iff.mp (by omega)
    rw [List.append_nil] at h
    exact ⟨result, indeg, rfl, h⟩
  | succ fuel ih =>
    cases queue with
    | nil =>
      rw [List.append_nil] at h
      exact ⟨result, indeg, rfl, h⟩
    | cons n queue =>
      have hspent : (fun m => credit deps m result + (adj n).count m) =
          fun m => credit deps m (result ++ [n]) := by
        funext m
        rw [credit_concat, hadj]
      rw [← List.singleton_append, ← List.append_assoc] at h
      have hrelease := release_waiting (adj n) h (by
        intro m
        rw [credit_append]
        refine (congrFun hspent m).le.trans (Nat.le_add_right _ _))
      rw [hspent] at hrelease
      exact ih (by simp only [List.length_append, List.length_singleton]; omega) hrelease

end

section

variable (assets : List Asset)

/-- The names of the assets without dependencies, with repetitions: the queue at the start. -/
def freeNames : List Text := (assets.filter fun a => depsOf assets a.name = []).map Asset.name

def heldNames : List Text := (assets.filter fun a => depsOf assets a.name ≠ []).map Asset.name

theorem freeNames_append_heldNames : (freeNames assets ++ heldNames assets).Perm (assets.map Asset.name) := by
  unfold freeNames heldNames
  rw [← List.map_append]
  refine List.Perm.map _ ?_
  have hperm := List.filter_append_perm (fun a => decide (depsOf assets a.name = [])) assets
  simpa using hperm

theorem depsOf_of_mem_freeNames : ∀ m ∈ freeNames assets, depsOf assets m = [] := by
  intro m hm
  obtain ⟨a, ha, rfl⟩ := List.mem_map.mp hm
  simpa using (List.mem_filter.mp ha).2

theorem mem_heldNames (m : Text) : m ∈ heldNames assets ↔ depsOf assets m ≠ [] := by
  constructor
  · intro hm
    obtain ⟨a, ha, rfl⟩ := List.mem_map.mp hm
    simpa using (List.mem_filter.mp ha).2
  · intro hm
    obtain ⟨a, ha, rfl⟩ := List.mem_map.mp (name_mem_of_depsOf hm)
    exact List.mem_map_of_mem (List.mem_filter.mpr ⟨ha, by simpa using hm⟩)

variable {assets}

theorem count_outside (Z : Finset Text) (l : List Text) (d : Text) :
    (l.filter fun n => n ∉ Z).count d = if d ∈ Z then 0 else l.count d := by
  split
  · next hd =>
    exact List.count_eq_zero.mpr fun hin => by simpa [hd] using (List.mem_filter.mp hin).2
  · next hd => exact List.count_filter (by simpa using hd)

theorem later_subperm {later : List Text} (hnodup : later.Nodup) (hmem : ∀ m ∈ later, depsOf assets m ≠ []) :
    later.Subperm (heldNames assets) :=
  hnodup.subperm fun m hm => (mem_heldNames assets m).mpr (hmem m hm)

theorem length_le_of_waiting {spent : Text → ℕ} {indeg : Text → ℤ} {out : List Text}
    (h : Waiting (depsOf assets) (freeNames assets) spent indeg out) : out.length ≤ assets.length := by
  obtain ⟨later, hout, hnodup, hmem⟩ := h.released
  have hlater := (later_subperm hnodup fun m hm => ((hmem m).mp hm).1).length_le
  have hall := (freeNames_append_heldNames assets).length_eq
  rw [List.length_append, List.length_map] at hall
  rw [hout, List.length_append]
  omega

section

variable {final : List Text} {last : Text → ℤ}
  (h : Waiting (depsOf assets) (freeNames assets) (fun m => credit (depsOf assets) m final) last final)
include h

theorem final_perm_of_length (hlength : final.length = assets.length) :
    final.Perm (assets.map Asset.name) ∧ (heldNames assets).Nodup := by
  obtain ⟨later, hout, hnodup, hmem⟩ := h.released
  have hsub := later_subperm hnodup fun m hm => ((hmem m).mp hm).1
  have hall := (freeNames_append_heldNames assets).length_eq
  rw [List.length_append, List.length_map] at hall
  rw [hout, List.length_append] at hlength
  have hperm : later.Perm (heldNames assets) := hsub.perm_of_length_le (by omega)
  refine ⟨?_, hperm.nodup_iff.mp hnodup⟩
  rw [hout]
  exact (hperm.append_left _).trans (freeNames_append_heldNames assets)

theorem not_stuck_of_length (hlength : final.length = assets.length) : ¬ Stuck assets := by
  rintro ⟨Z, ⟨m₀, hm₀⟩, hZ⟩
  obtain ⟨hperm, -⟩ := final_perm_of_length h hlength
  have hmem₀ : m₀ ∈ final := by
    refine hperm.mem_iff.mpr (name_mem_of_depsOf fun hnil => ?_)
    have hlt := hZ m₀ hm₀
    rw [hnil, List.length_nil] at hlt
    omega
  -- the first name of the set that goes has not enough names before it
  obtain ⟨l₁, m, l₂, hfinal, hm, hbefore⟩ : ∃ l₁ m l₂, final = l₁ ++ m :: l₂ ∧ m ∈ Z ∧ ∀ x ∈ l₁, x ∉ Z := by
    have hsome : (final.find? fun x => decide (x ∈ Z)).isSome := by
      rw [List.find?_isSome]
      exact ⟨m₀, hmem₀, by simpa using hm₀⟩
    obtain ⟨m, hm⟩ := Option.isSome_iff_exists.mp hsome
    obtain ⟨hmZ, l₁, l₂, hfinal, hbefore⟩ := List.find?_eq_some_iff_append.mp hm
    exact ⟨l₁, m, l₂, hfinal, by simpa using hmZ, fun x hx => by simpa using hbefore x hx⟩
  have hserved := h.served l₁ m l₂ hfinal
  have hcredit : credit (depsOf assets) m l₁ ≤
      credit (depsOf assets) m ((assets.map Asset.name).filter fun n => n ∉ Z) := by
    refine credit_le _ fun d _ => ?_
    rw [count_outside]
    split
    · next hd => rw [List.count_eq_zero.mpr fun hin => hbefore d hin hd]
    · rw [← hperm.count_eq, hfinal, List.count_append]
      exact Nat.le_add_right _ _
  have hlt := hZ m hm
  omega

theorem final_eq_names (hnone : ∀ a ∈ assets, a.dependsOn = []) : final = assets.map Asset.name := by
  have hnil : ∀ m, depsOf assets m = [] := by
    intro m
    refine List.eq_nil_iff_forall_not_mem.mpr fun d hd => ?_
    obtain ⟨a, ha, -, hda⟩ := mem_depsOf.mp hd
    rw [hnone a ha] at hda
    exact absurd hda List.not_mem_nil
  obtain ⟨later, hout, -, hmem⟩ := h.released
  have hlater : later = [] :=
    List.eq_nil_iff_forall_not_mem.mpr fun m hm => ((hmem m).mp hm).1 (hnil m)
  rw [hout, hlater, List.append_nil]
  unfold freeNames
  rw [List.filter_eq_self.mpr fun a _ => decide_eq_true (hnil a.name)]

/-- What is left when the loop ends too early is stuck, unless a name with dependencies is repeated. -/
theorem stuck_of_length (hheld : (heldNames assets).Nodup) (hlength : final.length ≠ assets.length) :
    Stuck assets := by
  obtain ⟨later, hout, hnodup, hmem⟩ := h.released
  have hsub := later_subperm hnodup fun m hm => ((hmem m).mp hm).1
  have hall := freeNames_append_heldNames assets
  refine ⟨(heldNames assets).toFinset \ later.toFinset, ?_, ?_⟩
  · by_contra hempty
    rw [Finset.not_nonempty_iff_eq_empty, Finset.sdiff_eq_empty_iff_subset] at hempty
    have hback : (heldNames assets).Subperm later := hheld.subperm fun m hm => by
      simpa using hempty (List.mem_toFinset.mpr hm)
    have hlen := (hsub.antisymm hback).length_eq
    have hsum := hall.length_eq
    rw [List.length_append, List.length_map] at hsum
    rw [hout, List.length_append] at hlength
    omega
  · intro m hm
    simp only [Finset.mem_sdiff, List.mem_toFinset, mem_heldNames] at hm
    have hspent : credit (depsOf assets) m final < (depsOf assets m).length := by
      by_contra hge
      exact hm.2 ((hmem m).mpr ⟨hm.1, not_lt.mp hge⟩)
    refine lt_of_le_of_lt (credit_le _ fun d _ => ?_) hspent
    rw [count_outside]
    split
    · exact Nat.zero_le _
    · next hd =>
      rw [← hall.count_eq, List.count_append, hout, List.count_append]
      refine Nat.add_le_add_left ?_ _
      by_cases hin : d ∈ heldNames assets
      · have hlater : d ∈ later := by
          by_contra hnot
          exact hd (by simp [(mem_heldNames assets d).mp hin, hnot, mem_heldNames])
        exact (List.nodup_iff_count_le_one.mp hheld d).trans (List.count_pos_iff.mpr hlater)
      · rw [List.count_eq_zero.mpr hin]
        exact Nat.zero_le _

end

end

theorem mapM_of_map {f : Text → Option ℕ} {l : List Text} {r : List ℕ} (h : l.map f = r.map some) :
    l.mapM f = some r := by
  induction l generalizing r with
  | nil =>
    obtain rfl : r = [] := by simpa using h.symm
    rfl
  | cons a l ih =>
    cases r with
    | nil => simp at h
    | cons b r =>
      obtain ⟨hhead, htail⟩ := List.cons.inj h
      simp [hhead, ih htail]

section

variable {assets : List Asset}

theorem index_unique (h : (assets.map Asset.name).Nodup) {i j : ℕ} {a b : Asset}
    (ha : assets[i]? = some a) (hb : assets[j]? = some b) (hab : a.name = b.name) : i = j := by
  have hi : (assets.map Asset.name)[i]? = some a.name := by rw [List.getElem?_map, ha, Option.map_some]
  have hj : (assets.map Asset.name)[j]? = some a.name := by rw [List.getElem?_map, hb, Option.map_some, hab]
  exact (List.getElem?_inj (List.getElem?_eq_some_iff.mp hi).1 h).mp (hi.trans hj.symm)

theorem nameToAsset_eq (h : (assets.map Asset.name).Nodup) {i : ℕ} {a : Asset}
    (ha : assets[i]? = some a) : nameToAsset assets a.name = some i := by
  have hmem : a.name ∈ assets.map Asset.name := List.mem_map_of_mem (List.mem_of_getElem? ha)
  obtain ⟨j, hj⟩ := Option.isSome_iff_exists.mp ((nameToAsset_isSome assets a.name).mpr hmem)
  obtain ⟨b, hb, hname⟩ := nameToAsset_some hj
  rw [hj, index_unique h ha hb hname.symm]

theorem exists_order {final : List Text} (h : ∀ n ∈ final, n ∈ assets.map Asset.name) :
    ∃ order : List ℕ, final.map (nameToAsset assets) = order.map some := by
  refine ⟨final.map fun n => (nameToAsset assets n).getD 0, ?_⟩
  rw [List.map_map]
  refine List.map_congr_left fun n hn => ?_
  obtain ⟨i, hi⟩ := Option.isSome_iff_exists.mp ((nameToAsset_isSome assets n).mpr (h n hn))
  simp [hi]

theorem nodup_of_order {final : List Text} {order : List ℕ}
    (h : final.map (nameToAsset assets) = order.map some) (horder : order.Nodup) : final.Nodup := by
  have hsome : (order.map some).Nodup := horder.map (Option.some_injective ℕ)
  rw [← h] at hsome
  exact hsome.of_map _

theorem order_perm_range {final : List Text} {order : List ℕ} (hnames : (assets.map Asset.name).Nodup)
    (hperm : final.Perm (assets.map Asset.name)) (h : final.map (nameToAsset assets) = order.map some) :
    order.Perm (List.range assets.length) := by
  have hplace : ∀ i ∈ order, i < assets.length := by
    intro i hi
    obtain ⟨n, -, hn⟩ := List.mem_map.mp (h ▸ List.mem_map_of_mem hi : some i ∈ final.map (nameToAsset assets))
    obtain ⟨a, ha, -⟩ := nameToAsset_some hn
    exact (List.getElem?_eq_some_iff.mp ha).1
  have hinj : (final.map (nameToAsset assets)).Nodup := by
    refine List.Nodup.map_on (fun m hm n _ hmn => ?_) (hperm.nodup_iff.mpr hnames)
    obtain ⟨i, hi⟩ := Option.isSome_iff_exists.mp
      ((nameToAsset_isSome assets m).mpr (hperm.mem_iff.mp hm))
    obtain ⟨a, ha, rfl⟩ := nameToAsset_some hi
    obtain ⟨b, hb, rfl⟩ := nameToAsset_some (hmn ▸ hi)
    rw [Option.some.inj (ha.symm.trans hb)]
  rw [h] at hinj
  have hlength : order.length = assets.length := by
    have hlen := congrArg List.length h
    rw [List.length_map, List.length_map, hperm.length_eq, List.length_map] at hlen
    exact hlen.symm
  refine (hinj.of_map _).subperm (fun i hi => List.mem_range.mpr (hplace i hi)) |>.perm_of_length_le ?_
  rw [List.length_range, hlength]

theorem order_behind {final : List Text} {order : List ℕ} (hnames : (assets.map Asset.name).Nodup)
    (hfinal : final.Nodup) (hserved : Served (depsOf assets) final)
    (h : final.map (nameToAsset assets) = order.map some) {l₁ l₂ : List ℕ} {i : ℕ}
    (hsplit : order = l₁ ++ i :: l₂) {j : ℕ} (hneeds : Needs assets i j) : j ∈ l₁ := by
  rw [hsplit, List.map_append, List.map_cons, List.map_eq_append_iff] at h
  obtain ⟨f₁, f', rfl, hf₁, hf'⟩ := h
  obtain ⟨m, f₂, rfl, hm, -⟩ := List.map_eq_cons_iff.mp hf'
  obtain ⟨a, b, ha, hb, hab⟩ := hneeds
  obtain ⟨c, hc, rfl⟩ := nameToAsset_some hm
  obtain rfl : a = c := Option.some.inj (ha.symm.trans hc)
  have hdep : b.name ∈ depsOf assets a.name := mem_depsOf.mpr ⟨a, List.mem_of_getElem? ha, rfl, hab⟩
  have hbefore := hserved.before hfinal rfl hdep
  have hplace : some j ∈ f₁.map (nameToAsset assets) :=
    List.mem_map.mpr ⟨b.name, hbefore, nameToAsset_eq hnames hb⟩
  rw [hf₁] at hplace
  simpa using hplace

theorem order_eq_range {order : List ℕ} (hnames : (assets.map Asset.name).Nodup)
    (h : (assets.map Asset.name).map (nameToAsset assets) = order.map some) :
    order = List.range assets.length := by
  refine List.map_injective_iff.mpr (Option.some_injective ℕ) ?_
  rw [← h]
  refine List.ext_getElem? fun i => ?_
  rw [List.getElem?_map, List.getElem?_map, List.getElem?_map]
  cases ha : assets[i]? with
  | none =>
    have hlen := List.getElem?_eq_none_iff.mp ha
    rw [List.getElem?_eq_none (by simpa using hlen)]
    rfl
  | some a =>
    have hlt := (List.getElem?_eq_some_iff.mp ha).1
    simp [nameToAsset_eq hnames ha, hlt]

theorem hasCycle_of_stuck (hknown : Known assets) (h : Stuck assets) : HasCycle assets := by
  obtain ⟨Z, ⟨m₀, hm₀⟩, hZ⟩ := h
  have hdep : ∀ m ∈ Z, ∃ d ∈ depsOf assets m, d ∈ Z := by
    intro m hm
    by_contra hnone
    have hle : (depsOf assets m).length ≤
        credit (depsOf assets) m ((assets.map Asset.name).filter fun n => n ∉ Z) := by
      refine length_le_credit _ fun d hd => List.mem_filter.mpr ⟨?_, ?_⟩
      · obtain ⟨a, ha, -, hda⟩ := mem_depsOf.mp hd
        exact hknown a ha d hda
      · exact decide_eq_true fun hdZ => hnone ⟨d, hd, hdZ⟩
    exact absurd (hZ m hm) (not_lt.mpr hle)
  let waits : Set ℕ := {i | ∃ a, assets[i]? = some a ∧ a.name ∈ Z ∧ ∃ d ∈ a.dependsOn, d ∈ Z}
  have hfind : ∀ m ∈ Z, ∃ i ∈ waits, ∃ a, assets[i]? = some a ∧ a.name = m := by
    intro m hm
    obtain ⟨d, hd, hdZ⟩ := hdep m hm
    obtain ⟨a, ha, rfl, hda⟩ := mem_depsOf.mp hd
    obtain ⟨i, hi⟩ := List.mem_iff_getElem?.mp ha
    exact ⟨i, ⟨a, hi, hm, d, hda, hdZ⟩, a, hi, rfl⟩
  refine exists_cycle_of_closed (Z := waits) ?_ ?_ ?_
  · refine (Set.finite_lt_nat assets.length).subset ?_
    rintro i ⟨a, ha, -⟩
    exact (List.getElem?_eq_some_iff.mp ha).1
  · obtain ⟨i, hi, -⟩ := hfind m₀ hm₀
    exact ⟨i, hi⟩
  · rintro i ⟨a, ha, -, d, hd, hdZ⟩
    obtain ⟨j, hj, b, hb, hname⟩ := hfind d hdZ
    exact ⟨j, hj, a, b, ha, hb, hname ▸ hd⟩

theorem known_iff : Known assets ↔ ∀ a ∈ assets, ∀ d ∈ a.dependsOn, (nameToAsset assets d).isSome :=
  forall₂_congr fun _ _ => forall₂_congr fun d _ => (nameToAsset_isSome assets d).symm

theorem toposortAssets_unknown (h : ¬ Known assets) :
    ∃ a d, toposortAssets assets = some (.error (.unknownDependency a d)) := by
  obtain ⟨a, d, he⟩ := linkAssets_error (g := ⟨fun _ => 0, fun _ => []⟩) (mt known_iff.mpr h)
  refine ⟨a, d, ?_⟩
  unfold toposortAssets
  simp only [he]

theorem toposortAssets_known (h : Known assets) : ∃ final last,
    Waiting (depsOf assets) (freeNames assets) (fun m => credit (depsOf assets) m final) last final ∧
    ((final.length ≠ assets.length ∧ toposortAssets assets = some (.error .cycle)) ∨
      (final.length = assets.length ∧ ∃ order, final.map (nameToAsset assets) = order.map some ∧
        toposortAssets assets = some (.ok order))) := by
  obtain ⟨g, hg, hlinked⟩ := linkAssets_ok (g := ⟨fun _ => 0, fun _ => []⟩) (known_iff.mp h)
  have hindeg : g.indeg = fun m => ((depsOf assets m).length : ℤ) := by
    funext m
    simp [hlinked.indeg m]
  have hqueue : (assets.filter fun a => g.indeg a.name = 0).map Asset.name = freeNames assets := by
    unfold freeNames
    simp [hindeg]
  have hstart : Waiting (depsOf assets) (freeNames assets) (fun m => credit (depsOf assets) m [])
      g.indeg ([] ++ freeNames assets) := by
    have hinit := waiting_init (depsOf assets) (depsOf_of_mem_freeNames assets)
    rw [hindeg]
    simpa using hinit
  obtain ⟨final, last, hdrain, hend⟩ := drain_waiting g.adj
    (fun m n => by simp [hlinked.adj m n]) (fun _ _ _ => length_le_of_waiting)
    assets.length (by simp) hstart
  refine ⟨final, last, hend, ?_⟩
  by_cases hlength : final.length = assets.length
  · right
    obtain ⟨order, horder⟩ := exists_order fun n hn => (final_perm_of_length hend hlength).1.mem_iff.mp hn
    refine ⟨hlength, order, horder, ?_⟩
    simp only [toposortAssets, hg, hqueue, hdrain, Option.map_some, hlength, ne_eq, not_true_eq_false,
      if_false, mapM_of_map horder]
  · left
    refine ⟨hlength, ?_⟩
    simp only [toposortAssets, hg, hqueue, hdrain, Option.map_some, ne_eq, hlength, not_false_eq_true,
      if_true]

theorem heldNames_nodup_of_names (h : (assets.map Asset.name).Nodup) : (heldNames assets).Nodup :=
  h.sublist (List.filter_sublist.map _)

theorem repeatedWithDeps_iff : RepeatedWithDeps assets ↔ ¬ (heldNames assets).Nodup := by
  have hcount : ∀ m, depsOf assets m ≠ [] →
      (assets.map Asset.name).count m = (heldNames assets).count m := by
    intro m hm
    have hfree : (freeNames assets).count m = 0 :=
      List.count_eq_zero.mpr fun hin => hm (depsOf_of_mem_freeNames assets m hin)
    rw [← (freeNames_append_heldNames assets).count_eq, List.count_append, hfree, Nat.zero_add]
  rw [List.nodup_iff_count_le_one, not_forall]
  constructor
  · rintro ⟨m, hmany, hm⟩
    exact ⟨m, by rw [← hcount m hm]; omega⟩
  · rintro ⟨m, hmany⟩
    have hm : depsOf assets m ≠ [] := by
      refine (mem_heldNames assets m).mp (List.count_pos_iff.mp ?_)
      omega
    exact ⟨m, by rw [hcount m hm]; omega, hm⟩

theorem sorts_of_nodup (hknown : Known assets) (hnames : (assets.map Asset.name).Nodup) :
    ∃ outcome, toposortAssets assets = some outcome ∧ Sorts assets outcome := by
  obtain ⟨final, last, hend, ⟨hlength, heq⟩ | ⟨hlength, order, horder, heq⟩⟩ := toposortAssets_known hknown
  · have hcycle := hasCycle_of_stuck hknown
      (stuck_of_length hend (heldNames_nodup_of_names hnames) hlength)
    refine ⟨_, heq, ⟨?_, ?_, ?_, ?_⟩⟩
    · simp [hknown]
    · simp [hcycle]
    · simp
    · simp
  · have hperm := (final_perm_of_length hend hlength).1
    have hfinal : final.Nodup := hperm.nodup_iff.mpr hnames
    have hrange := order_perm_range hnames hperm horder
    have hbehind := fun l₁ i l₂ (he : order = l₁ ++ i :: l₂) j (hj : Needs assets i j) =>
      order_behind hnames hfinal hend.served horder he hj
    have hacyclic : ¬ HasCycle assets := by
      refine not_cycle_of_order (l := order) (fun i j hij => ?_) hbehind
      obtain ⟨a, -, ha, -⟩ := hij
      exact hrange.mem_iff.mpr (List.mem_range.mpr (List.getElem?_eq_some_iff.mp ha).1)
    refine ⟨_, heq, ⟨?_, ?_, ?_, ?_⟩⟩
    · simp [hknown]
    · simp [hacyclic]
    · rintro order' ⟨⟩
      refine ⟨hrange, hbehind, fun hnone => order_eq_range hnames ?_⟩
      rw [← final_eq_names hend hnone]
      exact horder
    · simp

end

/-- Sorting by name sorts the assets exactly if a dependency is unknown, or no name is repeated, or the
repeated names do not hide that there is a cycle. -/
theorem toposortAssets_sorts_iff (assets : List Asset) :
    (∃ outcome, toposortAssets assets = some outcome ∧ Sorts assets outcome) ↔ Sortable assets := by
  constructor
  · rintro ⟨outcome, heq, hsorts⟩
    by_contra hnot
    simp only [Sortable, not_or, not_not] at hnot
    obtain ⟨hknown, hnames, hstuck, hrepeated⟩ := hnot
    obtain ⟨final, last, hend, ⟨hlength, heq'⟩ | ⟨hlength, order, horder, heq'⟩⟩ :=
      toposortAssets_known hknown
    · obtain rfl := Option.some.inj (heq.symm.trans heq')
      have hcycle := (hsorts.cycle hknown).mp rfl
      by_cases hheld : (heldNames assets).Nodup
      · exact hstuck (stuck_of_length hend hheld hlength)
      · exact hrepeated ⟨repeatedWithDeps_iff.mpr hheld, hcycle⟩
    · obtain rfl := Option.some.inj (heq.symm.trans heq')
      have hperm := (hsorts.order order rfl).1
      have hfinal := nodup_of_order horder (hperm.nodup_iff.mpr List.nodup_range)
      exact hnames ((final_perm_of_length hend hlength).1.nodup_iff.mp hfinal)
  · intro h
    by_cases hknown : Known assets
    · by_cases hnames : (assets.map Asset.name).Nodup
      · exact sorts_of_nodup hknown hnames
      · have hcycle : HasCycle assets ∧ (Stuck assets ∨ ¬ (heldNames assets).Nodup) := by
          rcases h with h | h | h | ⟨hrepeated, hcycle⟩
          · exact absurd hknown h
          · exact absurd h hnames
          · exact ⟨hasCycle_of_stuck hknown h, Or.inl h⟩
          · exact ⟨hcycle, Or.inr (repeatedWithDeps_iff.mp hrepeated)⟩
        obtain ⟨final, last, hend, ⟨hlength, heq⟩ | ⟨hlength, -⟩⟩ := toposortAssets_known hknown
        · refine ⟨_, heq, ⟨?_, ?_, ?_, ?_⟩⟩
          · simp [hknown]
          · simp [hcycle.1]
          · simp
          · simp
        · rcases hcycle.2 with hstuck | hheld
          · exact absurd hstuck (not_stuck_of_length hend hlength)
          · exact absurd (final_perm_of_length hend hlength).2 hheld
    · obtain ⟨a, d, heq⟩ := toposortAssets_unknown hknown
      refine ⟨_, heq, ⟨?_, ?_, ?_, ?_⟩⟩
      · simp [hknown]
      · intro hk
        exact absurd hk hknown
      · simp
      · simp

def twoDrones : List Asset :=
  [⟨lit "drone", some ⟨some [(lit "ROLE", lit "leader")], none, none, none⟩, []⟩, ⟨lit "drone", none, []⟩]

/-- The last asset of the name is in the order twice, the first one is not. -/
theorem twoDrones_not_sorted : toposortAssets twoDrones = some (.ok [1, 1]) ∧
    ¬ ∃ outcome, toposortAssets twoDrones = some outcome ∧ Sorts twoDrones outcome := by
  have heq : toposortAssets twoDrones = some (.ok [1, 1]) := by decide
  refine ⟨heq, ?_⟩
  rintro ⟨outcome, hout, hsorts⟩
  obtain rfl := Option.some.inj (heq.symm.trans hout)
  have hperm := (hsorts.order _ rfl).1
  exact absurd hperm (by decide)

/-- A repeated name with a dependency is refused for a cycle that is not there. -/
example : toposortAssets [⟨lit "a", none, []⟩, ⟨lit "b", none, [lit "a"]⟩, ⟨lit "b", none, []⟩] = some (.error .cycle) := by
  decide

/-- A dependency that counts twice hides the cycle of `b` and `c`. -/
example : toposortAssets [⟨lit "a", none, []⟩, ⟨lit "a", none, []⟩, ⟨lit "b", none, [lit "a", lit "c"]⟩, ⟨lit "c", none, [lit "b"]⟩] =
    some (.ok [1, 1, 2, 3]) := by decide

end Launch
end HakoniwaCorePro
