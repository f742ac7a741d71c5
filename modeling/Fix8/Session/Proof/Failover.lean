import Fix8.Session.Failover
import Mathlib.Logic.Function.Iterate

/-!
# The selection of a server

A server without a limit is never chosen, and any other has its retries reset when it is passed, so
that it permits an attempt the next time round. The loop ends exactly when there is a server with a
limit.

* `exists_iterate`: going round comes to every server;
* `select_permits`, `select_of_limit`, `select_none`: what the loop comes to;
* **`failover_iff`**: when it ends;
* `configured_limited`: a configuration without the limit 0;
* `turn_isSome_iff`: when the client goes on.
-/

namespace Fix8.Session

namespace Failover

variable {f f' : Failover} {fuel j k cnt : Nat}

/-! ## Going round -/

/-- The index after `c`. -/
def around (cnt c : Nat) : Nat := (c + 1) % 4294967296 % cnt

theorem toNat_nextIndex {c : UInt32} : (nextIndex cnt c).toNat = around cnt c.toNat := by
  have hlt : (c + 1).toNat % cnt < 4294967296 :=
    Nat.lt_of_le_of_lt (Nat.mod_le _ _) (c + 1).toNat_lt
  rw [nextIndex, UInt32.toNat_ofNat', Nat.mod_eq_of_lt hlt, UInt32.toNat_add]
  rfl

theorem around_succ {c : Nat} (h : c + 1 < cnt) (h' : c + 1 < 4294967296) :
    around cnt c = c + 1 := by
  rw [around, Nat.mod_eq_of_lt h', Nat.mod_eq_of_lt h]

theorem around_last {c : Nat} (h : c + 1 = min cnt 4294967296) : around cnt c = 0 := by
  unfold around
  rcases Nat.lt_or_ge (c + 1) 4294967296 with hlt | hge
  · have hcnt : c + 1 = cnt := by omega
    rw [Nat.mod_eq_of_lt hlt, hcnt, Nat.mod_self]
  · have hmax : c + 1 = 4294967296 := by omega
    rw [hmax, Nat.mod_self, Nat.zero_mod]

theorem iterate_up {c : Nat} (k : Nat) (h : c + k < cnt) (h' : c + k < 4294967296) :
    (around cnt)^[k] c = c + k := by
  induction k generalizing c with
  | zero => rfl
  | succ k ih =>
    rw [Function.iterate_succ_apply, around_succ (by omega) (by omega), ih (by omega) (by omega)]
    omega

/-- Every index is come to from every other. -/
theorem exists_iterate {c : Nat} (hc : c < min cnt 4294967296) (hj : j < min cnt 4294967296) :
    ∃ k, (around cnt)^[k] c = j := by
  -- up to the last, from there to the first, and up to `j`
  let last := min cnt 4294967296 - 1
  refine ⟨j + (1 + (last - c)), ?_⟩
  have hup : (around cnt)^[last - c] c = last := by
    rw [iterate_up _ (by omega) (by omega)]
    omega
  rw [Function.iterate_add_apply, Function.iterate_add_apply, hup, Function.iterate_one,
    around_last (by omega), iterate_up _ (by omega) (by omega), Nat.zero_add]

/-! ## One turn -/

/-- The state after a turn that has chosen nothing. -/
def pass (f : Failover) : Failover := (f.setRetries 0).advance

theorem select_succ : select (fuel + 1) f = if f.server.permits then some f else select fuel f.pass :=
  rfl

theorem get_current : f.servers[f.current.toNat]? = some f.server :=
  List.getElem?_eq_getElem f.inRange

theorem pass_current : f.pass.current.toNat = around f.servers.length f.current.toNat := by
  have hlength : (f.setRetries 0).servers.length = f.servers.length := List.length_set
  rw [← hlength]
  exact toNat_nextIndex

theorem pass_length : f.pass.servers.length = f.servers.length := List.length_set

/-- The server that has been passed has no retries any more. -/
theorem pass_get_current :
    f.pass.servers[f.current.toNat]? = some { f.server with retries := 0 } :=
  List.getElem?_set_self f.inRange

theorem pass_get_of_ne (h : j ≠ f.current.toNat) : f.pass.servers[j]? = f.servers[j]? :=
  List.getElem?_set_ne h.symm

/-- The limits stay. -/
theorem pass_limit : (f.pass.servers[j]?).map Server.maxRetries =
    (f.servers[j]?).map Server.maxRetries := by
  by_cases h : j = f.current.toNat
  · rw [h, pass_get_current, get_current]
    rfl
  · rw [pass_get_of_ne h]

/-! ## The loop -/

theorem select_permits (h : select fuel f = some f') : f'.server.permits = true := by
  induction fuel generalizing f with
  | zero => cases h
  | succ fuel ih =>
    rw [select_succ] at h
    split at h
    · next hpermits =>
      cases h
      exact hpermits
    · exact ih h

/-- A server that is ahead and permits an attempt is chosen, unless another is before. -/
theorem select_of_permits {s : Server} (hs : f.servers[j]? = some s) (hpermits : s.permits = true)
    (hk : (around f.servers.length)^[k] f.current.toNat = j) :
    ∃ fuel f', select fuel f = some f' := by
  induction k generalizing f with
  | zero =>
    obtain rfl : s = f.server := Option.some.inj (hs.symm.trans (hk ▸ get_current))
    exact ⟨1, f, if_pos hpermits⟩
  | succ k ih =>
    by_cases hself : f.server.permits = true
    · exact ⟨1, f, if_pos hself⟩
    · have hne : j ≠ f.current.toNat := by
        rintro rfl
        rw [get_current, Option.some_inj] at hs
        exact hself (hs ▸ hpermits)
      obtain ⟨fuel, f', hsel⟩ := ih (f := f.pass) ((pass_get_of_ne hne).trans hs) (by
        rw [pass_length, pass_current]
        exact hk)
      exact ⟨fuel + 1, f', by rw [select_succ, if_neg hself, hsel]⟩

/-- A server with a limit that is ahead permits an attempt when the loop comes to it again, at the
latest. -/
theorem select_of_limit {s : Server} (hs : f.servers[j]? = some s) (hlimit : s.maxRetries ≠ 0)
    (hk : (around f.servers.length)^[k] f.current.toNat = j) :
    ∃ fuel f', select fuel f = some f' := by
  induction k generalizing f s with
  | zero =>
    obtain rfl : f.current.toNat = j := hk
    by_cases hself : f.server.permits = true
    · exact ⟨1, f, if_pos hself⟩
    · -- reset now, it permits one the next time round
      obtain rfl : f.server = s := Option.some.inj (get_current.symm.trans hs)
      have hreset : ({ f.server with retries := 0 } : Server).permits = true := by
        have hpos : 0 < f.server.maxRetries := UInt32.pos_iff_ne_zero.2 hlimit
        simp [Server.permits, hlimit, hpos]
      have hbound : ∀ c : UInt32, c.toNat < f.servers.length →
          c.toNat < min f.servers.length 4294967296 :=
        fun c hc => Nat.lt_min.2 ⟨hc, c.toNat_lt⟩
      obtain ⟨k, hk⟩ := exists_iterate (hbound f.pass.current (pass_length ▸ f.pass.inRange))
        (hbound f.current f.inRange)
      obtain ⟨fuel, f', hsel⟩ := select_of_permits (f := f.pass) pass_get_current hreset
        (by rw [pass_length]; exact hk)
      exact ⟨fuel + 1, f', by rw [select_succ, if_neg hself, hsel]⟩
  | succ k ih =>
    by_cases hself : f.server.permits = true
    · exact ⟨1, f, if_pos hself⟩
    · have hmap := pass_limit (f := f) (j := j)
      rw [hs, Option.map_some] at hmap
      obtain ⟨s', hs', hlimit'⟩ := Option.map_eq_some_iff.1 hmap
      obtain ⟨fuel, f', hsel⟩ := ih (f := f.pass) hs' (hlimit' ▸ hlimit) (by
        rw [pass_length, pass_current]
        exact hk)
      exact ⟨fuel + 1, f', by rw [select_succ, if_neg hself, hsel]⟩

/-- Without limits the loop goes round for ever. -/
theorem select_none (h : ∀ j < 4294967296, ∀ s, f.servers[j]? = some s → s.maxRetries = 0) :
    select fuel f = none := by
  induction fuel generalizing f with
  | zero => rfl
  | succ fuel ih =>
    have hzero : f.server.maxRetries = 0 := h _ f.current.toNat_lt _ get_current
    have hself : ¬f.server.permits = true := by simp [Server.permits, hzero]
    rw [select_succ, if_neg hself]
    refine ih fun j hj s hs => ?_
    have hmap := pass_limit (f := f) (j := j)
    rw [hs, Option.map_some] at hmap
    obtain ⟨s', hs', hlimit⟩ := Option.map_eq_some_iff.1 hmap.symm
    rw [← hlimit]
    exact h j hj s' hs'

/-- A server that the loop comes to has a limit. -/
def Limited (f : Failover) : Prop :=
  ∃ j < 4294967296, ∃ s, f.servers[j]? = some s ∧ s.maxRetries ≠ 0

theorem exists_select_iff : (∃ fuel f', select fuel f = some f') ↔ f.Limited := by
  constructor
  · rintro ⟨fuel, f', hsel⟩
    refine Classical.byContradiction fun hnone => ?_
    rw [select_none fun j hj s hs => Classical.byContradiction fun hlimit =>
      hnone ⟨j, hj, s, hs, hlimit⟩] at hsel
    cases hsel
  · rintro ⟨j, hj, s, hs, hlimit⟩
    have hlt := (List.getElem?_eq_some_iff.1 hs).1
    obtain ⟨k, hk⟩ := exists_iterate (Nat.lt_min.2 ⟨f.inRange, f.current.toNat_lt⟩)
      (Nat.lt_min.2 ⟨hlt, hj⟩)
    exact select_of_limit hs hlimit hk

/-- The loop ends, at a server that its limit still permits. -/
def Selects (f : Failover) : Prop := ∃ fuel f', select fuel f = some f' ∧ f'.server.permits = true

/-- **The selection ends** exactly when a server has a limit, whatever retries have been counted. -/
theorem failover_iff (f : Failover) :
    f.Selects ↔ ∃ j < 4294967296, ∃ s, f.servers[j]? = some s ∧ s.maxRetries ≠ 0 := by
  constructor
  · rintro ⟨fuel, f', hsel, -⟩
    exact exists_select_iff.1 ⟨fuel, f', hsel⟩
  · intro h
    obtain ⟨fuel, f', hsel⟩ := exists_select_iff.2 h
    exact ⟨fuel, f', hsel, select_permits hsel⟩

/-- One server, whose limit is 0. -/
theorem failover_no_limit : ¬∀ f : Failover, f.Selects := by
  intro h
  let f : Failover := ⟨[⟨0, 1⟩], 0, by decide⟩
  obtain ⟨fuel, f', hsel, -⟩ := h f
  rw [select_none] at hsel
  · cases hsel
  · intro j _ s hs
    obtain rfl := List.mem_singleton.1 (List.mem_of_getElem? hs)
    rfl

/-! ## The client -/

/-- The servers of a configuration that gives none of them the limit 0. -/
theorem configured_limited {slist : List ServerAttrs} (hf : f.servers = getAddresses slist)
    (h : ∀ pp ∈ slist, UInt32.ofInt (pp.maxRetries.getD 3) ≠ 0) : f.Limited := by
  refine ⟨_, f.current.toNat_lt, _, get_current, ?_⟩
  have hmem : f.server ∈ getAddresses slist := hf ▸ List.mem_of_getElem? get_current
  obtain ⟨pp, hpp, heq⟩ := List.mem_map.1 hmem
  rw [← heq]
  exact h pp (List.mem_filter.1 hpp).1

/-- Counting retries leaves the limits alone. -/
theorem limited_setRetries {n : UInt32} : (f.setRetries n).Limited ↔ f.Limited := by
  have hmap : ∀ j : Nat, ((f.setRetries n).servers[j]?).map Server.maxRetries =
      (f.servers[j]?).map Server.maxRetries := by
    intro j
    by_cases h : j = f.current.toNat
    · have hself : (f.setRetries n).servers[f.current.toNat]? =
          some { f.server with retries := n } := List.getElem?_set_self f.inRange
      rw [h, get_current, hself]
      rfl
    · exact congrArg _ (List.getElem?_set_ne (Ne.symm h))
  have hlimit : ∀ g : Failover, g.Limited ↔
      ∃ j < 4294967296, ∃ m, (g.servers[j]?).map Server.maxRetries = some m ∧ m ≠ 0 := by
    intro g
    simp [Limited]
  rw [hlimit, hlimit]
  simp only [hmap]

/-- A client goes on after a failed attempt exactly when it has a server with a limit, or none at
all. -/
theorem turn_isSome_iff (c : ReliableClient) :
    (∃ fuel, (c.turn fuel true).isSome) ↔ ∀ f, c.failover = some f → f.Limited := by
  unfold ReliableClient.turn
  cases hf : c.failover with
  | none =>
    refine iff_of_true ⟨0, ?_⟩ fun f hf => by cases hf
    dsimp only
    split <;> rfl
  | some f =>
    simp only [Bool.not_true, Bool.false_eq_true, if_false, Option.isSome_map, Option.some_inj,
      forall_eq', afterAttempt, Option.isSome_iff_exists]
    exact exists_select_iff.trans limited_setRetries

end Failover

end Fix8.Session
