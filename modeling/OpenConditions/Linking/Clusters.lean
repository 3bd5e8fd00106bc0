import OpenConditions.Lib.OrderedMap
import Mathlib.Data.List.Perm.Subperm

set_option relaxedAutoImplicit false
set_option autoImplicit false

/-!
# The clusters of linked features

The union-find of `packages/model/src/linking/cluster.ts`: a parent for each id, and the members
of each cluster under its root.  Looking a root up compresses the path to it; joining two clusters
moves the smaller into the larger.

## Main definitions

* `Clusters` — the parents and the groups.
* `Clusters.root`, `membersOf`, `join`, `add` — the operations.
* `Clusters.Inv` — every member of a group climbs to its root in fewer steps than the group has
  members.
* `Clusters.Same` — two ids are members of one group.

## Main results

* `Clusters.Inv.root`, `Clusters.Inv.membersOf`, `Clusters.Inv.join` — what each operation does
  to the groups.
-/

namespace OpenConditions.Linking

/-! ## The class -/

/-- The parent of each id, and the members of each cluster under its root. -/
structure Clusters where
  parent : OrderedMap String String
  groups : OrderedMap String (List String)

/-- No clusters. -/
def Clusters.empty : Clusters := ⟨.empty, .empty⟩

/-- The ids passed on the way up from `cur`, and where it ends.  No climb is longer than there are
ids with a parent. -/
def climb (parent : OrderedMap String String) : ℕ → String → List String × String
  | 0, cur => ([], cur)
  | steps + 1, cur =>
    match parent.get cur with
    | none => ([], cur)
    | some p => if p = cur then ([], cur) else
      ((cur :: (climb parent steps p).1), (climb parent steps p).2)

/-- The parents once every id of `seen` is put right under `root`. -/
def compress (parent : OrderedMap String String) (seen : List String) (root : String) :
    OrderedMap String String :=
  seen.foldl (fun p s => p.set s root) parent

/-- The root of an id; an id not seen before becomes a cluster of its own. -/
def Clusters.root (c : Clusters) (id : String) : Clusters × String :=
  let climbed := climb c.parent c.parent.size id
  let parent := compress c.parent climbed.1 climbed.2
  if parent.has climbed.2 then (⟨parent, c.groups⟩, climbed.2)
  else (⟨parent.set climbed.2 climbed.2, c.groups.set climbed.2 [climbed.2]⟩, climbed.2)

/-- The members of the cluster holding an id. -/
def Clusters.membersOf (c : Clusters) (id : String) : Clusters × List String :=
  let rooted := c.root id
  (rooted.1, (rooted.1.groups.get rooted.2).getD [id])

/-- Moves the members of one cluster into another. -/
def Clusters.moveInto (c : Clusters) (big small : String) (into moved : List String) : Clusters :=
  ⟨c.parent.set small big, (c.groups.set big (into ++ moved)).delete small⟩

/-- Makes two clusters one. -/
def Clusters.join (c : Clusters) (a b : String) : Clusters :=
  let ra := c.root a
  let rb := ra.1.root b
  if ra.2 = rb.2 then rb.1
  else
    let left := (rb.1.groups.get ra.2).getD [ra.2]
    let right := (rb.1.groups.get rb.2).getD [rb.2]
    if right.length ≤ left.length then rb.1.moveInto ra.2 rb.2 left right
    else rb.1.moveInto rb.2 ra.2 right left

/-- Adds an id. -/
def Clusters.add (c : Clusters) (id : String) : Clusters := (c.root id).1

/-! ## Climbing -/

section Chain

variable {parent parent' : OrderedMap String String} {id r q s : String} {n m steps : ℕ}

/-- `n` steps lead from an id up to a root, which is its own parent. -/
inductive Chain (parent : OrderedMap String String) : ℕ → String → String → Prop
  | done {r : String} (h : parent.get r = some r) : Chain parent 0 r r
  | step {n : ℕ} {id p r : String} (h : parent.get id = some p) (hne : p ≠ id)
      (rest : Chain parent n p r) : Chain parent (n + 1) id r

/-- A climb ends at an id that is its own parent. -/
theorem Chain.get_root (h : Chain parent n id r) : parent.get r = some r := by
  induction h with
  | done h => exact h
  | step _ _ _ ih => exact ih

/-- An id that climbs has a parent. -/
theorem Chain.has (h : Chain parent n id r) : ∃ p, parent.get id = some p := by
  cases h with
  | done h => exact ⟨_, h⟩
  | step h _ _ => exact ⟨_, h⟩

/-- A root climbs nowhere. -/
theorem Chain.eq_of_get (h : Chain parent n id r) (hid : parent.get id = some id) :
    n = 0 ∧ r = id := by
  cases h with
  | done h => exact ⟨rfl, rfl⟩
  | step h hne _ =>
    rw [hid, Option.some.injEq] at h
    exact absurd h.symm hne

/-- An id climbs to one root, in one number of steps. -/
theorem Chain.unique (h : Chain parent n id r) (h' : Chain parent m id q) : n = m ∧ r = q := by
  induction h generalizing m q with
  | done h =>
    obtain ⟨hm, hq⟩ := h'.eq_of_get h
    exact ⟨hm.symm, hq.symm⟩
  | step h hne _ ih =>
    cases h' with
    | done h' =>
      rw [h', Option.some.injEq] at h
      exact absurd h.symm hne
    | step h' _ rest =>
      rw [h, Option.some.injEq] at h'
      subst h'
      obtain ⟨hn, hr⟩ := ih rest
      exact ⟨by rw [hn], hr⟩

/-- With enough steps a climb ends at the root, past ids that climb there too. -/
theorem climb_of_chain (h : Chain parent n id r) (hsteps : n ≤ steps) :
    (climb parent steps id).2 = r ∧
      ∀ s ∈ (climb parent steps id).1, s ≠ r ∧ ∃ m, Chain parent m s r := by
  induction h generalizing steps with
  | done h =>
    cases steps with
    | zero => exact ⟨rfl, by simp [climb]⟩
    | succ steps => simp [climb, h]
  | step h hne rest ih =>
    cases steps with
    | zero => omega
    | succ steps =>
      obtain ⟨hroot, hseen⟩ := @ih steps (by omega)
      simp only [climb, h, if_neg hne]
      refine ⟨hroot, fun s hs => ?_⟩
      rcases List.mem_cons.mp hs with rfl | hrest
      · refine ⟨fun heq => ?_, _, .step h hne rest⟩
        -- A root has no parent but itself.
        have hroot' := rest.get_root
        rw [← heq, h, Option.some.injEq] at hroot'
        exact hne hroot'
      · exact hseen s hrest

/-- Putting an id right under its root leaves every root as it is, and no climb gets longer. -/
theorem Chain.set (hs : Chain parent m s r) (hne : s ≠ r) (h : Chain parent n id q) :
    ∃ k ≤ n, Chain (parent.set s r) k id q := by
  have hroot : (parent.set s r).get r = some r := by
    rw [OrderedMap.get_set_of_ne _ _ hne.symm]
    exact hs.get_root
  induction h with
  | @done q h =>
    refine ⟨0, Nat.le_refl _, .done ?_⟩
    have hqs : q ≠ s := by
      rintro rfl
      exact hne (hs.eq_of_get h).2.symm
    rw [OrderedMap.get_set_of_ne _ _ hqs]
    exact h
  | @step n id p q h hpne rest ih =>
    by_cases hid : id = s
    · subst hid
      obtain ⟨-, rfl⟩ := (Chain.step h hpne rest).unique hs
      exact ⟨1, by omega, .step (OrderedMap.get_set_self _ _ _) hne.symm (.done hroot)⟩
    · obtain ⟨k, hk, hchain⟩ := ih
      refine ⟨k + 1, by omega, .step ?_ hpne hchain⟩
      rw [OrderedMap.get_set_of_ne _ _ hid]
      exact h

/-- Putting one root under another leaves the climbs to a third one, and makes those to it one
step longer. -/
theorem Chain.link (hs : parent.get s = some s) (hr : parent.get r = some r) (hne : s ≠ r)
    (h : Chain parent n id q) :
    Chain (parent.set s r) (if q = s then n + 1 else n) id (if q = s then r else q) := by
  have hroot : (parent.set s r).get r = some r := by
    rw [OrderedMap.get_set_of_ne _ _ hne.symm]
    exact hr
  induction h with
  | @done q h =>
    by_cases hq : q = s
    · subst hq
      rw [if_pos rfl, if_pos rfl]
      exact .step (OrderedMap.get_set_self _ _ _) hne.symm (.done hroot)
    · rw [if_neg hq, if_neg hq]
      exact .done (by rw [OrderedMap.get_set_of_ne _ _ hq]; exact h)
  | @step n id p q h hpne rest ih =>
    have hid : id ≠ s := by
      rintro rfl
      rw [hs, Option.some.injEq] at h
      exact hpne h.symm
    have hget : (parent.set s r).get id = some p := by
      rw [OrderedMap.get_set_of_ne _ _ hid]
      exact h
    by_cases hq : q = s
    · rw [if_pos hq, if_pos hq] at ih ⊢
      exact .step hget hpne ih
    · rw [if_neg hq, if_neg hq] at ih ⊢
      exact .step hget hpne ih

/-- A new id that is its own parent changes no climb. -/
theorem Chain.insert (hnew : parent.get s = none) (h : Chain parent n id q) :
    Chain (parent.set s s) n id q := by
  have hold : ∀ {x p}, parent.get x = some p → (parent.set s s).get x = some p := by
    intro x p hx
    have hxs : x ≠ s := by
      rintro rfl
      rw [hnew] at hx
      cases hx
    rw [OrderedMap.get_set_of_ne _ _ hxs]
    exact hx
  induction h with
  | done h => exact .done (hold h)
  | step h hne _ ih => exact .step (hold h) hne ih

end Chain

/-! ## The invariant -/

namespace Clusters

/-- Every member of a group climbs to its root in fewer steps than the group has members, and
every id with a parent is in a group. -/
structure Inv (c : Clusters) : Prop where
  chain : ∀ {r g}, c.groups.get r = some g → ∀ id ∈ g, ∃ n < g.length, Chain c.parent n id r
  root_mem : ∀ {r g}, c.groups.get r = some g → r ∈ g
  nodup : ∀ {r g}, c.groups.get r = some g → g.Nodup
  covered : ∀ {id p}, c.parent.get id = some p → ∃ r g, c.groups.get r = some g ∧ id ∈ g

/-- The id is in a group. -/
def Has (c : Clusters) (id : String) : Prop := ∃ r g, c.groups.get r = some g ∧ id ∈ g

/-- Two ids are in one group. -/
def Same (c : Clusters) (a b : String) : Prop := ∃ r g, c.groups.get r = some g ∧ a ∈ g ∧ b ∈ g

section Inv

variable {c : Clusters} {a b x y z r s id : String} {g g' : List String}

/-- The groups are disjoint. -/
theorem Inv.root_unique (h : c.Inv) (hr : c.groups.get r = some g) (hs : c.groups.get s = some g')
    (hg : id ∈ g) (hg' : id ∈ g') : r = s ∧ g = g' := by
  obtain ⟨n, -, hn⟩ := h.chain hr id hg
  obtain ⟨m, -, hm⟩ := h.chain hs id hg'
  obtain ⟨-, rfl⟩ := hn.unique hm
  rw [hr, Option.some.injEq] at hs
  exact ⟨rfl, hs⟩

/-- A group has no more members than there are ids with a parent. -/
theorem Inv.length_le (h : c.Inv) (hr : c.groups.get r = some g) : g.length ≤ c.parent.size := by
  have hsub : g ⊆ c.parent.keys := by
    intro id hid
    obtain ⟨n, -, hchain⟩ := h.chain hr id hid
    obtain ⟨p, hp⟩ := hchain.has
    exact List.mem_map.mpr ⟨(id, p), (OrderedMap.get_eq_some_iff _).mp hp, rfl⟩
  have hlen := ((h.nodup hr).subperm hsub).length_le
  rwa [OrderedMap.keys, List.length_map] at hlen

/-- Being in one group is symmetric. -/
theorem Same.symm (h : c.Same x y) : c.Same y x := by
  obtain ⟨r, g, hr, hx, hy⟩ := h
  exact ⟨r, g, hr, hy, hx⟩

/-- Being in one group is transitive. -/
theorem Inv.same_trans (h : c.Inv) (hxy : c.Same x y) (hyz : c.Same y z) : c.Same x z := by
  obtain ⟨r, g, hr, hx, hy⟩ := hxy
  obtain ⟨s, g', hs, hy', hz⟩ := hyz
  obtain ⟨-, rfl⟩ := h.root_unique hr hs hy hy'
  exact ⟨r, g, hr, hx, hz⟩

/-- The members of a group are those in one with any of them. -/
theorem Inv.mem_iff_same (h : c.Inv) (hr : c.groups.get r = some g) (ha : a ∈ g) :
    x ∈ g ↔ c.Same x a := by
  refine ⟨fun hx => ⟨r, g, hr, hx, ha⟩, ?_⟩
  rintro ⟨s, g', hs, hx, ha'⟩
  obtain ⟨-, rfl⟩ := h.root_unique hr hs ha ha'
  exact hx

/-- No clusters satisfy the invariant. -/
theorem inv_empty : empty.Inv where
  chain h := by cases h
  root_mem h := by cases h
  nodup h := by cases h
  covered h := by cases h

/-! ## Looking a root up -/

/-- Compressing a path keeps the invariant. -/
theorem Inv.compress {parent : OrderedMap String String} {groups : OrderedMap String (List String)}
    {seen : List String} (h : Inv ⟨parent, groups⟩)
    (hseen : ∀ s ∈ seen, s ≠ r ∧ ∃ m, Chain parent m s r) :
    Inv ⟨Linking.compress parent seen r, groups⟩ := by
  induction seen generalizing parent with
  | nil => exact h
  | cons s rest ih =>
    obtain ⟨hne, m, hs⟩ := hseen s (List.mem_cons_self ..)
    refine @ih (parent.set s r) ⟨?_, h.root_mem, h.nodup, ?_⟩ ?_
    · intro q g hq id hid
      obtain ⟨n, hn, hchain⟩ := h.chain hq id hid
      obtain ⟨k, hk, hchain'⟩ := Chain.set hs hne hchain
      exact ⟨k, by omega, hchain'⟩
    · intro id p hp
      by_cases hid : id = s
      · obtain ⟨p', hp'⟩ := hs.has
        exact h.covered (hid ▸ hp')
      · rw [OrderedMap.get_set_of_ne _ _ hid] at hp
        exact h.covered hp
    · intro t ht
      obtain ⟨htne, k, hk⟩ := hseen t (List.mem_cons_of_mem _ ht)
      obtain ⟨k', -, hk'⟩ := Chain.set hs hne hk
      exact ⟨htne, k', hk'⟩

/-- **Looking up the root of a member** leaves the groups as they are. -/
theorem Inv.root (h : c.Inv) (hr : c.groups.get r = some g) (hid : id ∈ g) :
    (c.root id).2 = r ∧ (c.root id).1.groups = c.groups ∧ (c.root id).1.Inv := by
  obtain ⟨n, hn, hchain⟩ := h.chain hr id hid
  obtain ⟨hroot, hseen⟩ := climb_of_chain hchain
    (Nat.le_trans (Nat.le_of_lt hn) (h.length_le hr))
  have hinv : Inv ⟨Linking.compress c.parent (climb c.parent c.parent.size id).1 r, c.groups⟩ :=
    Inv.compress h hseen
  obtain ⟨m, -, hm⟩ := hinv.chain hr r (h.root_mem hr)
  obtain ⟨p, hp⟩ := hm.has
  have hhas : (Linking.compress c.parent (climb c.parent c.parent.size id).1 r).has r = true := by
    rw [OrderedMap.has, hp]
    rfl
  simp only [Clusters.root, hroot, hhas, if_true]
  exact ⟨trivial, trivial, hinv⟩

/-- **An id in no group** becomes a group of its own. -/
theorem Inv.root_of_not_has (h : c.Inv) (hid : ¬c.Has id) :
    (c.root id).1.groups = c.groups.set id [id] ∧ (c.root id).1.Inv := by
  have hnone : c.parent.get id = none := by
    by_contra hsome
    obtain ⟨p, hp⟩ := Option.ne_none_iff_exists'.mp hsome
    exact hid (h.covered hp)
  have hclimb : climb c.parent c.parent.size id = ([], id) := by
    cases c.parent.size with
    | zero => rfl
    | succ steps => simp [climb, hnone]
  have hhas : (Linking.compress c.parent [] id).has id = false := by
    simp [Linking.compress, OrderedMap.has, hnone]
  simp only [Clusters.root, hclimb, hhas, Bool.false_eq_true, if_false]
  refine ⟨trivial, ?_, ?_, ?_, ?_⟩
  · intro r g hr x hx
    rw [OrderedMap.get_set] at hr
    split_ifs at hr with hrid
    · cases hr
      rw [List.mem_singleton.mp hx, hrid]
      exact ⟨0, Nat.one_pos, .done (OrderedMap.get_set_self _ _ _)⟩
    · obtain ⟨n, hn, hchain⟩ := h.chain hr x hx
      exact ⟨n, hn, hchain.insert hnone⟩
  · intro r g hr
    rw [OrderedMap.get_set] at hr
    split_ifs at hr with hrid
    · cases hr
      rw [hrid]
      exact List.mem_singleton_self _
    · exact h.root_mem hr
  · intro r g hr
    rw [OrderedMap.get_set] at hr
    split_ifs at hr
    · cases hr
      exact List.nodup_singleton _
    · exact h.nodup hr
  · intro x p hp
    by_cases hx : x = id
    · exact ⟨id, [id], OrderedMap.get_set_self _ _ _, by simp [hx]⟩
    · rw [Linking.compress, List.foldl_nil, OrderedMap.get_set_of_ne _ _ hx] at hp
      obtain ⟨r, g, hr, hg⟩ := h.covered hp
      have hrid : r ≠ id := by
        rintro rfl
        exact hid ⟨r, g, hr, h.root_mem hr⟩
      exact ⟨r, g, by rw [OrderedMap.get_set_of_ne _ _ hrid]; exact hr, hg⟩

/-- **The members of a member's cluster** are its group. -/
theorem Inv.membersOf (h : c.Inv) (hr : c.groups.get r = some g) (hid : id ∈ g) :
    (c.membersOf id).2 = g ∧ (c.membersOf id).1.groups = c.groups ∧ (c.membersOf id).1.Inv := by
  obtain ⟨hroot, hgroups, hinv⟩ := h.root hr hid
  refine ⟨?_, hgroups, hinv⟩
  simp only [Clusters.membersOf, hroot, hgroups, hr, Option.getD_some]

/-! ## Adding and joining -/

/-- Adding an id gives it a group, its own if it had none. -/
theorem Inv.add (h : c.Inv) (id : String) :
    (c.add id).Inv ∧ ∀ x y, (c.add id).Same x y ↔ c.Same x y ∨ (x = id ∧ y = id) := by
  by_cases hid : c.Has id
  · obtain ⟨r, g, hr, hg⟩ := hid
    obtain ⟨-, hgroups, hinv⟩ := h.root hr hg
    refine ⟨hinv, fun x y => ?_⟩
    have hsame : (c.add id).Same x y ↔ c.Same x y := by
      unfold Same Clusters.add
      rw [hgroups]
    rw [hsame]
    refine ⟨Or.inl, ?_⟩
    rintro (hxy | ⟨rfl, rfl⟩)
    · exact hxy
    · exact ⟨r, g, hr, hg, hg⟩
  · obtain ⟨hgroups, hinv⟩ := h.root_of_not_has hid
    refine ⟨hinv, fun x y => ?_⟩
    unfold Same Clusters.add
    rw [hgroups]
    constructor
    · rintro ⟨r, g, hr, hx, hy⟩
      rw [OrderedMap.get_set] at hr
      split_ifs at hr
      · cases hr
        exact Or.inr ⟨List.mem_singleton.mp hx, List.mem_singleton.mp hy⟩
      · exact Or.inl ⟨r, g, hr, hx, hy⟩
    · rintro (⟨r, g, hr, hx, hy⟩ | ⟨rfl, rfl⟩)
      · have hrid : r ≠ id := by
          rintro rfl
          exact hid ⟨r, g, hr, h.root_mem hr⟩
        exact ⟨r, g, by rw [OrderedMap.get_set_of_ne _ _ hrid]; exact hr, hx, hy⟩
      · exact ⟨y, [y], OrderedMap.get_set_self _ _ _, by simp, by simp⟩

/-- What the groups are once one has been moved into another. -/
theorem get_moveInto {big small : String} {into moved : List String} :
    (c.moveInto big small into moved).groups.get r =
      if r = small then none else if r = big then some (into ++ moved) else c.groups.get r := by
  rw [moveInto, OrderedMap.get_delete, OrderedMap.get_set]

/-- Moving one group into another keeps the invariant, and makes the two one. -/
theorem Inv.moveInto {big small : String} {into moved : List String} (h : c.Inv)
    (hbig : c.groups.get big = some into) (hsmall : c.groups.get small = some moved)
    (hne : big ≠ small) :
    (c.moveInto big small into moved).Inv ∧
      ∀ x y, (c.moveInto big small into moved).Same x y ↔
        c.Same x y ∨ (x ∈ into ∧ y ∈ moved) ∨ (x ∈ moved ∧ y ∈ into) := by
  have hfix : ∀ {q g}, c.groups.get q = some g → c.parent.get q = some q := by
    intro q g hq
    obtain ⟨n, -, hn⟩ := h.chain hq q (h.root_mem hq)
    exact hn.get_root
  have hlink : ∀ {n x q}, Chain c.parent n x q → Chain (c.parent.set small big)
      (if q = small then n + 1 else n) x (if q = small then big else q) := fun hchain =>
    Chain.link (hfix hsmall) (hfix hbig) hne.symm hchain
  refine ⟨⟨?_, ?_, ?_, ?_⟩, fun x y => ⟨?_, ?_⟩⟩
  · intro r g hr x hx
    rw [get_moveInto] at hr
    split_ifs at hr with hrs hrb
    · cases hr
      rcases List.mem_append.mp hx with hinto | hmoved
      · obtain ⟨n, hn, hchain⟩ := h.chain hbig x hinto
        have hchain' := hlink hchain
        rw [if_neg hne, if_neg hne] at hchain'
        exact ⟨n, by rw [List.length_append]; omega, hrb ▸ hchain'⟩
      · obtain ⟨n, hn, hchain⟩ := h.chain hsmall x hmoved
        have hchain' := hlink hchain
        rw [if_pos rfl, if_pos rfl] at hchain'
        have hpos : 0 < into.length := List.length_pos_of_mem (h.root_mem hbig)
        exact ⟨n + 1, by rw [List.length_append]; omega, hrb ▸ hchain'⟩
    · obtain ⟨n, hn, hchain⟩ := h.chain hr x hx
      have hchain' := hlink hchain
      rw [if_neg hrs, if_neg hrs] at hchain'
      exact ⟨n, hn, hchain'⟩
  · intro r g hr
    rw [get_moveInto] at hr
    split_ifs at hr with hrs hrb
    · cases hr
      exact List.mem_append_left _ (hrb ▸ h.root_mem hbig)
    · exact h.root_mem hr
  · intro r g hr
    rw [get_moveInto] at hr
    split_ifs at hr with hrs hrb
    · cases hr
      rw [List.nodup_append]
      refine ⟨h.nodup hbig, h.nodup hsmall, fun u hu v hv huv => ?_⟩
      subst huv
      exact hne (h.root_unique hbig hsmall hu hv).1
    · exact h.nodup hr
  · intro x p hp
    have hcov : ∃ r g, c.groups.get r = some g ∧ x ∈ g := by
      by_cases hx : x = small
      · exact ⟨small, moved, hsmall, hx ▸ h.root_mem hsmall⟩
      · rw [Clusters.moveInto, OrderedMap.get_set_of_ne _ _ hx] at hp
        exact h.covered hp
    obtain ⟨r, g, hr, hx⟩ := hcov
    by_cases hrs : r = small
    · subst hrs
      rw [hsmall, Option.some.injEq] at hr
      exact ⟨big, into ++ moved, by rw [get_moveInto, if_neg hne, if_pos rfl],
        List.mem_append_right _ (hr ▸ hx)⟩
    · by_cases hrb : r = big
      · subst hrb
        rw [hbig, Option.some.injEq] at hr
        exact ⟨r, into ++ moved, by rw [get_moveInto, if_neg hne, if_pos rfl],
          List.mem_append_left _ (hr ▸ hx)⟩
      · exact ⟨r, g, by rw [get_moveInto, if_neg hrs, if_neg hrb]; exact hr, hx⟩
  · rintro ⟨r, g, hr, hx, hy⟩
    rw [get_moveInto] at hr
    split_ifs at hr with hrs hrb
    · cases hr
      rcases List.mem_append.mp hx with hx | hx <;> rcases List.mem_append.mp hy with hy | hy
      · exact Or.inl ⟨big, into, hbig, hx, hy⟩
      · exact Or.inr (Or.inl ⟨hx, hy⟩)
      · exact Or.inr (Or.inr ⟨hx, hy⟩)
      · exact Or.inl ⟨small, moved, hsmall, hx, hy⟩
    · exact Or.inl ⟨r, g, hr, hx, hy⟩
  · have hnew : (c.moveInto big small into moved).groups.get big = some (into ++ moved) := by
      rw [get_moveInto, if_neg hne, if_pos rfl]
    rintro (⟨r, g, hr, hx, hy⟩ | ⟨hx, hy⟩ | ⟨hx, hy⟩)
    · by_cases hrs : r = small
      · rw [hrs, hsmall, Option.some.injEq] at hr
        exact ⟨big, _, hnew, List.mem_append_right _ (hr ▸ hx),
          List.mem_append_right _ (hr ▸ hy)⟩
      · by_cases hrb : r = big
        · rw [hrb, hbig, Option.some.injEq] at hr
          exact ⟨big, _, hnew, List.mem_append_left _ (hr ▸ hx),
            List.mem_append_left _ (hr ▸ hy)⟩
        · exact ⟨r, g, by rw [get_moveInto, if_neg hrs, if_neg hrb]; exact hr, hx, hy⟩
    · exact ⟨big, _, hnew, List.mem_append_left _ hx, List.mem_append_right _ hy⟩
    · exact ⟨big, _, hnew, List.mem_append_right _ hx, List.mem_append_left _ hy⟩

/-- **Joining two members' clusters** makes them one, and leaves the others. -/
theorem Inv.join (h : c.Inv) (ha : c.Has a) (hb : c.Has b) :
    (c.join a b).Inv ∧ ∀ x y, (c.join a b).Same x y ↔
      c.Same x y ∨ (c.Same x a ∧ c.Same y b) ∨ (c.Same x b ∧ c.Same y a) := by
  obtain ⟨r, left, hr, ha⟩ := ha
  obtain ⟨s, right, hs, hb⟩ := hb
  obtain ⟨hra, hgroups, h₁⟩ := h.root hr ha
  rw [← hgroups] at hs
  obtain ⟨hrb, hgroups', h₂⟩ := h₁.root hs hb
  rw [hgroups] at hs hgroups'
  have hsame : ∀ x y, ((c.root a).1.root b).1.Same x y ↔ c.Same x y := by
    intro x y
    unfold Same
    rw [hgroups']
  simp only [Clusters.join, hra, hrb, hgroups', hr, hs, Option.getD_some]
  split_ifs with heq hlen
  · subst heq
    refine ⟨h₂, fun x y => ?_⟩
    rw [hsame]
    refine ⟨Or.inl, ?_⟩
    rw [hr, Option.some.injEq] at hs
    have hab : c.Same a b := ⟨r, left, hr, ha, hs ▸ hb⟩
    rintro (hxy | ⟨hx, hy⟩ | ⟨hx, hy⟩)
    · exact hxy
    · exact h.same_trans hx (h.same_trans hab hy.symm)
    · exact h.same_trans hx (h.same_trans hab.symm hy.symm)
  · obtain ⟨hinv, hmoved⟩ := h₂.moveInto (hgroups' ▸ hr) (hgroups' ▸ hs) heq
    refine ⟨hinv, fun x y => ?_⟩
    rw [hmoved, hsame, h.mem_iff_same hr ha, h.mem_iff_same hr ha, h.mem_iff_same hs hb,
      h.mem_iff_same hs hb]
  · obtain ⟨hinv, hmoved⟩ := h₂.moveInto (hgroups' ▸ hs) (hgroups' ▸ hr) (Ne.symm heq)
    refine ⟨hinv, fun x y => ?_⟩
    rw [hmoved, hsame, h.mem_iff_same hr ha, h.mem_iff_same hr ha, h.mem_iff_same hs hb,
      h.mem_iff_same hs hb]
    exact or_congr Iff.rfl or_comm

end Inv

end Clusters

end OpenConditions.Linking
