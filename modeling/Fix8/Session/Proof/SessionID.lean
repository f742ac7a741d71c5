import Fix8.Session.SessionID
import Fix8.Codec.Proof.CStr

/-!
# Session ids through their text

The expression takes a sender without a `-` where `make_id` separates it by `->`, so that an id with
such a sender comes back, and no other does: the match would have to go over the whole text.

* `matches_sid`: what the expression matches;
* **`session_id_roundTrips_iff`**.
-/

namespace Fix8.Session

open Lib Codec

namespace SessionID

variable {b s t : F8String}

/-- The id that is printed is read back. -/
def RoundTrips (b s t : F8String) : Prop :=
  (ofString (idOf b s t)).beginString = b ∧ (ofString (idOf b s t)).senderCompID = s ∧
    (ofString (idOf b s t)).targetCompID = t

/-- A match, by its parts. -/
theorem matches_sid {parts : List F8String} : Pattern.Matches sidPattern parts ↔
    ∃ b s t : F8String, parts = [b, [58], s, [45], [62], t] ∧
      ((∀ c ∈ b, c ≠ 58) ∧ b ≠ []) ∧ ((∀ c ∈ s, c ≠ 45) ∧ s ≠ []) ∧ t ≠ [] := by
  constructor
  · intro h
    obtain ⟨b, _, rfl, hb, hblen, hcolon⟩ := Pattern.matches_run.1 h
    obtain ⟨_, hrest, hsender⟩ := Pattern.matches_char.1 hcolon
    obtain ⟨s, _, rfl, hs, hslen, hdash⟩ := Pattern.matches_run.1 hsender
    obtain ⟨_, rfl, hangle⟩ := Pattern.matches_char.1 hdash
    obtain ⟨_, rfl, htarget⟩ := Pattern.matches_char.1 hangle
    obtain ⟨t, _, rfl, -, htlen, hnil⟩ := Pattern.matches_run.1 htarget
    obtain rfl := Pattern.matches_nil.1 hnil
    subst hrest
    exact ⟨b, s, t, rfl, ⟨by simpa using hb, List.length_pos_iff.1 hblen⟩,
      ⟨by simpa using hs, List.length_pos_iff.1 hslen⟩, List.length_pos_iff.1 htlen⟩
  · rintro ⟨b, s, t, rfl, ⟨hb, hblen⟩, ⟨hs, hslen⟩, htlen⟩
    exact .run (by simpa using hb) (List.length_pos_iff.2 hblen) (.char
      (.run (by simpa using hs) (List.length_pos_iff.2 hslen) (.char (.char
        (.run (fun _ _ => rfl) (List.length_pos_iff.2 htlen) .nil)))))

theorem sid_separated : Pattern.Separated sidPattern := by
  simp [sidPattern, Pattern.Separated, Pattern.nullable, Pattern.starts]

theorem parts_flatten : [b, [58], s, [45], [62], t].flatten = idOf b s t := by
  have hcolon : ascii ":" = [58] := rfl
  have harrow : ascii "->" = [45, 62] := rfl
  simp [idOf, hcolon, harrow]

theorem mem_idOf {c : UInt8} (hc : c ≠ 58) (hc' : c ≠ 45) (hc'' : c ≠ 62) :
    c ∈ idOf b s t ↔ c ∈ b ∨ c ∈ s ∨ c ∈ t := by
  rw [← parts_flatten]
  simp [hc, hc', hc'']

/-- **An id comes back** exactly when its sender has no `-` in it, and none of the three parts a
NUL. -/
theorem session_id_roundTrips_iff (hb : b ≠ []) (hb' : 58 ∉ b) (hs : s ≠ []) (ht : t ≠ []) :
    RoundTrips b s t ↔ 45 ∉ s ∧ 0 ∉ b ∧ 0 ∉ s ∧ 0 ∉ t := by
  have hzero : (0 : UInt8) ∉ idOf b s t ↔ 0 ∉ b ∧ 0 ∉ s ∧ 0 ∉ t := by
    rw [mem_idOf (by decide) (by decide) (by decide), not_or, not_or]
  rw [← hzero, ← cstr_eq_self]
  constructor
  · rintro ⟨h1, h2, h3⟩
    unfold ofString fromString at h1 h2 h3
    cases hfound : Pattern.search [sidPattern] (cstr (idOf b s t)) with
    | none =>
      rw [hfound] at h1
      exact absurd h1.symm hb
    | some found =>
      rw [hfound] at h1 h2 h3
      dsimp only at h1 h2 h3
      obtain ⟨heq, ⟨ps, hps, hmatch⟩, -⟩ := Pattern.search_sound hfound
      obtain rfl := List.mem_singleton.1 hps
      obtain ⟨b', s', t', hparts, -, ⟨hs', -⟩, -⟩ := matches_sid.1 hmatch
      rw [hparts] at h1 h2 h3
      obtain rfl : b' = b := h1
      obtain rfl : s' = s := h2
      obtain rfl : t' = t := h3
      -- the match is as long as the text
      rw [hparts, parts_flatten] at heq
      have hprefix : cstr (idOf b' s' t') <+: idOf b' s' t' := List.takeWhile_prefix _
      have hlen := hprefix.length_le
      rw [heq, List.length_append, List.length_append] at hlen
      have hbefore : found.before = [] := List.length_eq_zero_iff.1 (by omega)
      have hafter : found.after = [] := List.length_eq_zero_iff.1 (by omega)
      refine ⟨fun hmem => hs' 45 hmem rfl, ?_⟩
      rw [heq, hbefore, hafter, List.nil_append, List.append_nil]
  · rintro ⟨hdash, hcstr⟩
    have hmatch : Pattern.Matches sidPattern [b, [58], s, [45], [62], t] :=
      matches_sid.2 ⟨b, s, t, rfl, ⟨fun c hc hcolon => hb' (hcolon ▸ hc), hb⟩,
        ⟨fun c hc hd => hdash (hd ▸ hc), hs⟩, ht⟩
    obtain ⟨parts, hparts, hle, heq⟩ := Pattern.matchAt_longest sid_separated hmatch []
    obtain ⟨-, rest, hrest⟩ := Pattern.matchAt_sound hparts
    -- there is nothing longer than the whole text
    have hlen := congrArg List.length hrest
    rw [List.append_nil, List.length_append] at hlen
    obtain rfl := heq (by omega)
    rw [List.append_nil, parts_flatten] at hparts
    have hfirst : Pattern.firstAt [sidPattern] (idOf b s t) = some [b, [58], s, [45], [62], t] := by
      rw [Pattern.firstAt, List.findSome?_cons, hparts]
    have hsid : ofString (idOf b s t) = ⟨b, s, t, idOf b s t⟩ := by
      unfold ofString fromString
      rw [hcstr, Pattern.search_of_firstAt hfirst]
      rfl
    rw [RoundTrips, hsid]
    exact ⟨rfl, rfl, rfl⟩

theorem session_id_sender :
    RoundTrips (ascii "FIX.4.4") (ascii "SENDER") (ascii "TARGET-1") :=
  (session_id_roundTrips_iff (by decide) (by decide) (by decide) (by decide)).2 (by decide)

/-- A sender with a `-` in it. -/
theorem session_id_dash : ¬∀ b s t : F8String, b ≠ [] → 58 ∉ b → s ≠ [] → ¬ascii "->" <:+: s →
    t ≠ [] → RoundTrips b s t := by
  intro h
  have hrt := h (ascii "FIX.4.4") (ascii "A-B") (ascii "T") (by decide) (by decide) (by decide)
    (by decide) (by decide)
  exact absurd hrt.1 (by decide +kernel)

end SessionID

end Fix8.Session
