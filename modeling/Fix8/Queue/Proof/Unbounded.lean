import Fix8.Queue.Unbounded
import Mathlib.Data.List.ReduceOption

/-!
# What an unbounded buffer holds

The items are those of the buffers of the chain, one behind the other. No buffer between the first
and the last one is empty, so the reader need only look at its own: when that is empty and `buf_w`
is another one, the writer has left it for good, and the next one is on the list.

* `Holds`: the chain, with what the two threads know of it;
* `holds_write`, `holds_read`: a turn of each thread;
* **`unbounded_fifo`**: every run of turns.
-/

namespace Fix8.Queue.Unbounded

open Lib

variable {α : Type} {s : Unbounded α} {l : List Nat}

/-- The buffer behind the writer's own, when it has put one on the list. -/
def listed : UnboundedPush α → List Nat
  | .switch _ buf => [buf]
  | _ => []

/-- The buffer that the writer has fetched and not yet put on the list. -/
def held : UnboundedPush α → List Nat
  | .enlist _ buf => [buf]
  | _ => []

/-- The writer leaves its buffer. -/
def moving : UnboundedPush α → Bool
  | .fetch _ => true
  | .enlist .. => true
  | .switch .. => true
  | _ => false

/-- The buffers that somebody has, or will have. -/
def known (s : Unbounded α) : List Nat := s.chain ++ held s.push ++ s.bufcache

/-- When the reader comes to a buffer it finds an item in it, or there is none. -/
def Settled (s : Unbounded α) (buf : Nat) : Prop :=
  s.bufs buf ≠ [] ∨ (s.inuse = [] ∧ moving s.push = false)

/-- What the writer knows; `l` are the buffers in front of its own. -/
structure WriterAware (s : Unbounded α) (l : List Nat) : Prop where
  chain : s.chain = l ++ s.bufW :: listed s.push
  new : ∀ buf ∈ listed s.push ++ held s.push, s.bufs buf = []
  left : moving s.push = true → l ≠ [] → s.bufs s.bufW ≠ []
  store : ∀ data, s.push = .store data → (s.bufs s.bufW).length < s.size

/-- What the reader knows. -/
structure ReaderAware (s : Unbounded α) : Prop where
  compare : ∀ wasEmpty, s.pop = .compare wasEmpty → s.bufR = s.bufW → wasEmpty = true
  recheck : s.pop = .recheck → s.bufR ≠ s.bufW
  fetch : s.pop = .fetch → s.bufR ≠ s.bufW ∧ s.bufs s.bufR = []
  release : ∀ buf, s.pop = .release buf →
    s.bufR ≠ s.bufW ∧ s.bufs s.bufR = [] ∧ Settled s buf
  adopt : ∀ buf, s.pop = .adopt buf → Settled s buf
  take : s.pop = .take → Settled s s.bufR

/-- The buffers hold the items of a queue. -/
structure Holds (s : Unbounded α) (l : List Nat) : Prop where
  size : 0 < s.size
  nodup : s.known.Nodup
  fresh : ∀ buf ∈ s.known, buf < s.fresh
  cache : ∀ buf ∈ s.bufcache, s.bufs buf = []
  unborn : ∀ buf, s.fresh ≤ buf → s.bufs buf = []
  between : ∀ buf ∈ l.tail, s.bufs buf ≠ []
  writer : WriterAware s l
  reader : ReaderAware s
  run : FifoRun [] s.acts s.items
  answers : takes s.acts = s.popped.reduceOption

/-! ## The chain -/

theorem flatMap_update {bufs : Nat → List α} {buf : Nat} {xs : List α} {c : List Nat}
    (h : buf ∉ c) : c.flatMap (Function.update bufs buf xs) = c.flatMap bufs := by
  refine List.flatMap_congr fun b hb => ?_
  apply Function.update_of_ne
  intro he
  exact h (he ▸ hb)

/-- The first buffer is that of the writer exactly when there is none in front of it. -/
theorem head_iff {r w : Nat} {c d : List Nat} (h : r :: c = l ++ w :: d)
    (hnodup : (l ++ w :: d).Nodup) : r = w ↔ l = [] := by
  cases l with
  | nil =>
    simp only [List.nil_append, List.cons.injEq] at h
    simp [h.1]
  | cons a l =>
    simp only [List.cons_append, List.cons.injEq] at h
    simp only [List.cons_append, List.nodup_cons, List.mem_append, List.mem_cons] at hnodup
    simp only [reduceCtorEq, iff_false]
    intro hsame
    exact hnodup.1 (.inr (.inl (h.1.symm.trans hsame)))

theorem Holds.nodup_chain (h : Holds s l) : s.chain.Nodup := by
  have hnodup := h.nodup
  unfold known at hnodup
  simp only [List.nodup_append] at hnodup
  exact hnodup.1.1

theorem Holds.mem_known (h : Holds s l) : s.bufW ∈ s.known := by
  simp [known, h.writer.chain]

theorem Holds.not_cached (h : Holds s l) {buf : Nat} (hbuf : buf ∈ s.chain) :
    buf ∉ s.bufcache := by
  have hnodup := h.nodup
  unfold known at hnodup
  rw [List.nodup_append] at hnodup
  intro hc
  exact hnodup.2.2 buf (List.mem_append_left _ hbuf) buf hc rfl

theorem Holds.same_iff (h : Holds s l) (hchain : s.chain = s.bufR :: s.inuse) :
    s.bufR = s.bufW ↔ l = [] :=
  head_iff (hchain.symm.trans h.writer.chain) (h.writer.chain ▸ h.nodup_chain)

/-- The last buffer is the writer's, unless it has put one behind it. -/
theorem last_eq {c d : List Nat} {buf w : Nat} (h : c ++ [buf] = d ++ [w]) : buf = w := by
  have := congrArg List.getLast? h
  simpa using this

theorem holds_init {size : Nat} (h : 0 < size) : Holds (init size : Unbounded α) [] where
  size := h
  nodup := by simp [init, known, chain, held]
  fresh := by simp [init, known, chain, held]
  cache := by simp [init]
  unborn := by simp [init]
  between := by simp
  writer := ⟨by simp [init, chain, listed], by simp [init, listed, held], by simp [init, moving],
    by simp [init]⟩
  reader := ⟨by simp [init], by simp [init], by simp [init], by simp [init], by simp [init],
    by simp [init]⟩
  run := FifoRun.start
  answers := by simp [init]

/-! ## The writer -/

/-- What the writer does to its own state alone. -/
theorem Holds.withPush (h : Holds s l) {pc : UnboundedPush α}
    (hlisted : listed pc = listed s.push) (hheld : held pc = held s.push)
    (hleft : moving pc = true → l ≠ [] → s.bufs s.bufW ≠ [])
    (hstore : ∀ data, pc = .store data → (s.bufs s.bufW).length < s.size)
    (hsettled : ∀ buf c, s.chain = c ++ buf :: s.inuse → Settled s buf →
      s.bufs buf ≠ [] ∨ (s.inuse = [] ∧ moving pc = false)) :
    Holds { s with push := pc } l where
  size := h.size
  nodup := by
    have := h.nodup
    rwa [known, ← hheld] at this
  fresh := by
    have := h.fresh
    rwa [known, ← hheld] at this
  cache := h.cache
  unborn := h.unborn
  between := h.between
  writer := ⟨by rw [hlisted]; exact h.writer.chain, by rw [hlisted, hheld]; exact h.writer.new,
    hleft, hstore⟩
  reader := by
    refine ⟨h.reader.compare, h.reader.recheck, h.reader.fetch, fun buf hpc => ?_,
      fun buf hpc => ?_, fun hpc => ?_⟩
    · obtain ⟨hne, hempty, hset⟩ := h.reader.release buf hpc
      refine ⟨hne, hempty, hsettled buf [s.bufR] ?_ hset⟩
      have hpc : s.pop = .release buf := hpc
      simp [chain, hpc]
    · refine hsettled buf [] ?_ (h.reader.adopt buf hpc)
      have hpc : s.pop = .adopt buf := hpc
      simp [chain, hpc]
    · refine hsettled s.bufR [] ?_ (h.reader.take hpc)
      have hpc : s.pop = .take := hpc
      simp [chain, hpc]
  run := h.run
  answers := h.answers

/-- A buffer is put behind the last one. -/
theorem holds_enlist (h : Holds s l) {data : α} {buf : Nat} (hpc : s.push = .enlist data buf) :
    Holds { s with inuse := s.inuse ++ [buf], push := .switch data buf } l := by
  have hbuf : s.bufs buf = [] := h.writer.new buf (by simp [hpc, held])
  have hchain : chain { s with inuse := s.inuse ++ [buf], push := .switch data buf } =
      s.chain ++ [buf] := by
    unfold chain
    cases s.pop <;> simp
  have hknown : known { s with inuse := s.inuse ++ [buf], push := .switch data buf } = s.known := by
    simp [known, hchain, hpc, held]
  have hmoving : moving s.push = true := by simp [hpc, moving]
  have hsettled : ∀ b, Settled s b →
      Settled { s with inuse := s.inuse ++ [buf], push := .switch data buf } b := by
    intro b hb
    rcases hb with hb | ⟨-, hb⟩
    · exact .inl hb
    · rw [hmoving] at hb
      cases hb
  refine ⟨h.size, hknown ▸ h.nodup, hknown ▸ h.fresh, h.cache, h.unborn, h.between,
    ⟨?_, ?_, fun _ hl => h.writer.left hmoving hl, by simp⟩,
    ⟨h.reader.compare, h.reader.recheck, h.reader.fetch, fun b hb => ?_, fun b hb => ?_,
      fun hb => hsettled _ (h.reader.take hb)⟩, ?_, h.answers⟩
  · rw [hchain, h.writer.chain]
    simp [hpc, listed]
  · simpa [listed, held] using hbuf
  · obtain ⟨hne, hempty, hset⟩ := h.reader.release b hb
    exact ⟨hne, hempty, hsettled b hset⟩
  · exact hsettled b (h.reader.adopt b hb)
  · have hitems : items { s with inuse := s.inuse ++ [buf], push := .switch data buf } =
        s.items := by
      unfold items
      rw [hchain]
      simp [hbuf]
    rw [hitems]
    exact h.run

/-- The writer goes over to the last buffer. -/
theorem holds_switch (h : Holds s l) {data : α} {buf : Nat} (hpc : s.push = .switch data buf) :
    Holds { s with bufW := buf, push := .store data } (l ++ [s.bufW]) := by
  have hbuf : s.bufs buf = [] := h.writer.new buf (by simp [hpc, listed])
  have hmoving : moving s.push = true := by simp [hpc, moving]
  have hchain : s.chain = (l ++ [s.bufW]) ++ buf :: [] := by
    rw [h.writer.chain, hpc]
    simp [listed]
  have hne : s.chain = s.bufR :: s.inuse → s.bufR ≠ buf := by
    intro hfirst
    have := head_iff (hfirst.symm.trans hchain) (hchain ▸ h.nodup_chain)
    simp [this]
  have hsettled : ∀ b, Settled s b → Settled { s with bufW := buf, push := .store data } b := by
    intro b hb
    rcases hb with hb | ⟨-, hb⟩
    · exact .inl hb
    · rw [hmoving] at hb
      cases hb
  have hknown : known { s with bufW := buf, push := .store data } = s.known := by
    show s.chain ++ [] ++ s.bufcache = s.known
    simp [known, hpc, held]
  refine ⟨h.size, hknown ▸ h.nodup, hknown ▸ h.fresh, h.cache, h.unborn, fun b hb => ?_,
    ⟨hchain, by simp [listed, held], by simp [moving], fun _ _ => ?_⟩,
    ⟨fun e he hsame => ?_, fun he => ?_, fun he => ?_, fun b hb => ?_, fun b hb => ?_,
      fun hb => hsettled _ (h.reader.take hb)⟩, h.run, h.answers⟩
  · cases l with
    | nil => simp at hb
    | cons a l =>
      simp only [List.cons_append, List.tail_cons, List.mem_append, List.mem_singleton] at hb
      rcases hb with hb | rfl
      · exact h.between b hb
      · exact h.writer.left hmoving (by simp)
  · show (s.bufs buf).length < s.size
    simpa [hbuf] using h.size
  · have he : s.pop = .compare e := he
    exact absurd hsame (hne (by simp [chain, he]))
  · have he : s.pop = .recheck := he
    exact hne (by simp [chain, he])
  · have he : s.pop = .fetch := he
    exact ⟨hne (by simp [chain, he]), (h.reader.fetch he).2⟩
  · have hb : s.pop = .release b := hb
    obtain ⟨-, hempty, hset⟩ := h.reader.release b hb
    refine ⟨fun hsame => ?_, hempty, hsettled b hset⟩
    have hfirst : s.chain = s.bufR :: b :: s.inuse := by simp [chain, hb]
    have := (head_iff (hfirst.symm.trans hchain) (hchain ▸ h.nodup_chain)).1 hsame
    simp at this
  · exact hsettled b (h.reader.adopt b hb)

/-- An item is stored in the last buffer. -/
theorem holds_store (h : Holds s l) {data : α} (hpc : s.push = .store data) :
    Holds { s with
      bufs := Function.update s.bufs s.bufW (s.bufs s.bufW ++ [data]), push := .idle
      acts := s.acts ++ [.put data] } l := by
  have hchain : s.chain = l ++ [s.bufW] := by
    rw [h.writer.chain, hpc]
    rfl
  have hnot : s.bufW ∉ l := by
    have hnodup := hchain ▸ h.nodup_chain
    simp only [List.nodup_append, List.mem_singleton] at hnodup
    intro hmem
    exact hnodup.2.2 _ hmem _ rfl rfl
  have hkept : ∀ b, s.bufs b ≠ [] →
      Function.update s.bufs s.bufW (s.bufs s.bufW ++ [data]) b ≠ [] := by
    intro b hb
    by_cases he : b = s.bufW
    · simp [he]
    · simp [Function.update_of_ne he, hb]
  have hother : ∀ b, b ≠ s.bufW → s.bufs b = [] →
      Function.update s.bufs s.bufW (s.bufs s.bufW ++ [data]) b = [] := by
    intro b hne hb
    rw [Function.update_of_ne hne, hb]
  have hmoving : moving s.push = false := by simp [hpc, moving]
  have hsettled : ∀ b, Settled s b → Settled { s with
      bufs := Function.update s.bufs s.bufW (s.bufs s.bufW ++ [data]), push := .idle
      acts := s.acts ++ [.put data] } b := by
    intro b hb
    rcases hb with hb | ⟨hb, -⟩
    · exact .inl (hkept b hb)
    · exact .inr ⟨hb, rfl⟩
  have hmem : s.bufW ∈ s.chain := by simp [hchain]
  have hknown : known { s with
      bufs := Function.update s.bufs s.bufW (s.bufs s.bufW ++ [data]), push := .idle
      acts := s.acts ++ [.put data] } = s.known := by
    show s.chain ++ [] ++ s.bufcache = s.known
    simp [known, hpc, held]
  refine ⟨h.size, hknown ▸ h.nodup, hknown ▸ h.fresh, fun b hb => ?_, fun b hb => ?_,
    fun b hb => hkept b (h.between b hb),
    ⟨hchain, by simp [listed, held], by simp [moving], by simp⟩,
    ⟨h.reader.compare, h.reader.recheck, fun hb => ?_, fun b hb => ?_,
      fun b hb => hsettled b (h.reader.adopt b hb), fun hb => hsettled _ (h.reader.take hb)⟩, ?_, ?_⟩
  · refine hother b (fun he => ?_) (h.cache b hb)
    exact h.not_cached hmem (he ▸ hb)
  · refine hother b (fun he => ?_) (h.unborn b hb)
    have hlt := h.fresh s.bufW h.mem_known
    have hb : s.fresh ≤ b := hb
    omega
  · obtain ⟨hne, hempty⟩ := h.reader.fetch hb
    exact ⟨hne, hother _ hne hempty⟩
  · obtain ⟨hne, hempty, hset⟩ := h.reader.release b hb
    exact ⟨hne, hother _ hne hempty, hsettled b hset⟩
  · have hitems : s.chain.flatMap (Function.update s.bufs s.bufW (s.bufs s.bufW ++ [data])) =
        s.items ++ [data] := by
      unfold items
      rw [hchain, List.flatMap_append, List.flatMap_append, flatMap_update hnot]
      simp
    show FifoRun [] (s.acts ++ [.put data])
      (s.chain.flatMap (Function.update s.bufs s.bufW (s.bufs s.bufW ++ [data])))
    rw [hitems]
    exact h.run.put data
  · simpa using h.answers

/-- A buffer for the items to come is taken from the cache, or made. -/
theorem holds_fetch (h : Holds s l) {data : α} {buf n : Nat} {rest : List Nat}
    (hpc : s.push = .fetch data) (hbuf : s.bufs buf = []) (hrest : ∀ b ∈ rest, b ∈ s.bufcache)
    (hnodup : (s.chain ++ [buf] ++ rest).Nodup) (hn : s.fresh ≤ n) (hlt : buf < n) :
    Holds { s with bufcache := rest, fresh := n, push := .enlist data buf } l := by
  have hmoving : moving s.push = true := by simp [hpc, moving]
  have hsettled : ∀ b, Settled s b →
      Settled { s with bufcache := rest, fresh := n, push := .enlist data buf } b := by
    intro b hb
    rcases hb with hb | ⟨-, hb⟩
    · exact .inl hb
    · rw [hmoving] at hb
      cases hb
  refine ⟨h.size, hnodup, fun b hb => ?_, fun b hb => h.cache b (hrest b hb),
    fun b hb => h.unborn b (Nat.le_trans hn hb), h.between,
    ⟨?_, ?_, fun _ hl => h.writer.left hmoving hl, by simp⟩,
    ⟨h.reader.compare, h.reader.recheck, h.reader.fetch, fun b hb => ?_,
      fun b hb => hsettled b (h.reader.adopt b hb), fun hb => hsettled _ (h.reader.take hb)⟩,
    h.run, h.answers⟩
  · have hold : b ∈ s.known → b < n := fun hb => Nat.lt_of_lt_of_le (h.fresh b hb) hn
    have hb : b ∈ s.chain ++ [buf] ++ rest := hb
    simp only [List.mem_append, List.mem_singleton] at hb
    rcases hb with (hb | rfl) | hb
    · exact hold (by simp [known, hb])
    · exact hlt
    · exact hold (by simp [known, hrest b hb])
  · show s.chain = l ++ [s.bufW]
    rw [h.writer.chain, hpc]
    rfl
  · simpa [listed, held] using hbuf
  · obtain ⟨hne, hempty, hset⟩ := h.reader.release b hb
    exact ⟨hne, hempty, hsettled b hset⟩

theorem holds_write (h : Holds s l) (data : α) : ∃ l', Holds (s.write data) l' := by
  cases hpc : s.push with
  | idle =>
    cases havail : s.available with
    | true =>
      have hstep : s.write data = { s with push := .store data } := by simp [write, hpc, havail]
      have hroom : (s.bufs s.bufW).length < s.size := by simpa [available] using havail
      rw [hstep]
      refine ⟨l, h.withPush (by simp [hpc, listed]) (by simp [hpc, held]) (by simp [moving])
        (fun _ _ => hroom) fun buf c hc hset => ?_⟩
      rcases hset with hset | ⟨hset, -⟩
      · exact .inl hset
      · exact .inr ⟨hset, rfl⟩
    | false =>
      have hstep : s.write data = { s with push := .fetch data } := by simp [write, hpc, havail]
      have hfull : s.bufs s.bufW ≠ [] := by
        intro hnil
        have hpos := h.size
        simp [available, hnil] at havail
        omega
      rw [hstep]
      refine ⟨l, h.withPush (by simp [hpc, listed]) (by simp [hpc, held]) (fun _ _ => hfull)
        (by simp) fun buf c hc hset => ?_⟩
      rcases hset with hset | ⟨hset, -⟩
      · exact .inl hset
      · rw [hset, h.writer.chain, hpc] at hc
        rw [last_eq hc.symm]
        exact .inl hfull
  | fetch data' =>
    have hknown : s.known = s.chain ++ s.bufcache := by simp [known, hpc, held]
    have hnodup := hknown ▸ h.nodup
    cases hcache : s.bufcache with
    | cons buf rest =>
      have hstep : s.write data =
          { s with bufcache := rest, push := .enlist data' buf } := by simp [write, hpc, hcache]
      have hbuf : buf ∈ s.bufcache := by simp [hcache]
      rw [hstep]
      refine ⟨l, holds_fetch h hpc (h.cache buf hbuf) (fun b hb => ?_) ?_ (Nat.le_refl _)
        (h.fresh buf ?_)⟩
      · rw [hcache]
        exact List.mem_cons_of_mem _ hb
      · simpa [hcache] using hnodup
      · rw [hknown]
        exact List.mem_append_right _ hbuf
    | nil =>
      have hnil := h.unborn s.fresh (Nat.le_refl _)
      have hsame : Function.update s.bufs s.fresh [] = s.bufs := by
        rw [← hnil]
        exact Function.update_eq_self _ _
      have hstep : s.write data = { s with
          bufcache := [], fresh := s.fresh + 1, push := .enlist data' s.fresh } := by
        simp [write, hpc, hcache, hsame]
      rw [hstep]
      refine ⟨l, holds_fetch h hpc hnil (by simp) ?_ (Nat.le_succ _) (Nat.lt_succ_self _)⟩
      rw [hcache, List.append_nil] at hknown hnodup
      simp only [List.append_nil, List.nodup_append, List.mem_singleton]
      refine ⟨hnodup, by simp, fun b hb c hc he => ?_⟩
      have := h.fresh b (hknown ▸ hb)
      omega
  | enlist data' buf =>
    have hstep : s.write data =
        { s with inuse := s.inuse ++ [buf], push := .switch data' buf } := by simp [write, hpc]
    rw [hstep]
    exact ⟨l, holds_enlist h hpc⟩
  | switch data' buf =>
    have hstep : s.write data = { s with bufW := buf, push := .store data' } := by
      simp [write, hpc]
    rw [hstep]
    exact ⟨_, holds_switch h hpc⟩
  | store data' =>
    have hroom := h.writer.store data' hpc
    have hstep : s.write data = { s with
        bufs := Function.update s.bufs s.bufW (s.bufs s.bufW ++ [data']), push := .idle
        acts := s.acts ++ [.put data'] } := by simp [write, hpc, hroom]
    rw [hstep]
    exact ⟨l, holds_store h hpc⟩

/-! ## The reader -/

/-- What the reader does to its own state alone, while its buffer stays the first one. -/
theorem Holds.withPop (h : Holds s l) {pc : UnboundedPop} {popped : List (Option α)}
    (hchain : chain { s with pop := pc, popped := popped } = s.chain)
    (hreader : ReaderAware { s with pop := pc, popped := popped })
    (hpopped : popped.reduceOption = s.popped.reduceOption) :
    Holds { s with pop := pc, popped := popped } l where
  size := h.size
  nodup := by
    have := h.nodup
    rwa [known, ← hchain] at this
  fresh := by
    have := h.fresh
    rwa [known, ← hchain] at this
  cache := h.cache
  unborn := h.unborn
  between := h.between
  writer := ⟨hchain.trans h.writer.chain, h.writer.new, h.writer.left, h.writer.store⟩
  reader := hreader
  run := by
    have := h.run
    rwa [items, ← hchain] at this
  answers := h.answers.trans hpopped.symm

/-- The reader goes on to the next buffer of the list. -/
theorem holds_nextR (h : Holds s l) (hpc : s.pop = .fetch) :
    ∃ buf rest, s.inuse = buf :: rest ∧
      Holds { s with inuse := rest, pop := .release buf } l := by
  have hfirst : s.chain = s.bufR :: s.inuse := by simp [chain, hpc]
  have heq := hfirst.symm.trans h.writer.chain
  obtain ⟨hne, hempty⟩ := h.reader.fetch hpc
  have hl : l ≠ [] := fun hnil => hne ((h.same_iff hfirst).2 hnil)
  obtain ⟨a, l', rfl⟩ := List.exists_cons_of_ne_nil hl
  simp only [List.cons_append, List.cons.injEq] at heq
  obtain ⟨rfl, hinuse⟩ := heq
  obtain ⟨buf, rest, hbuf⟩ : ∃ buf rest, s.inuse = buf :: rest := by
    cases hin : s.inuse with
    | nil => simp [hin] at hinuse
    | cons buf rest => exact ⟨buf, rest, rfl⟩
  have hset : Settled { s with inuse := rest, pop := .release buf } buf := by
    rw [hbuf] at hinuse
    cases l' with
    | nil =>
      simp only [List.nil_append, List.cons.injEq] at hinuse
      cases hmoving : moving s.push with
      | true =>
        rw [hinuse.1]
        exact .inl (h.writer.left hmoving hl)
      | false =>
        refine .inr ⟨hinuse.2.trans ?_, hmoving⟩
        cases hpush : s.push with
        | switch data b => simp [hpush, moving] at hmoving
        | _ => rfl
    | cons b l' =>
      simp only [List.cons_append, List.cons.injEq] at hinuse
      rw [hinuse.1]
      exact .inl (h.between b (by simp))
  have hchain : chain { s with inuse := rest, pop := .release buf } = s.chain := by
    rw [hfirst, hbuf]
    rfl
  have hitems := h.run
  rw [items, ← hchain] at hitems
  have hnodup := h.nodup
  have hfresh := h.fresh
  rw [known, ← hchain] at hnodup hfresh
  refine ⟨buf, rest, hbuf, h.size, hnodup, hfresh, h.cache, h.unborn, h.between,
    ⟨hchain.trans h.writer.chain, h.writer.new, h.writer.left, h.writer.store⟩,
    ⟨by simp, by simp, by simp, fun b hb => ?_, by simp, by simp⟩, hitems, h.answers⟩
  simp only [UnboundedPop.release.injEq] at hb
  subst hb
  exact ⟨hne, hempty, hset⟩

/-- The reader's buffer, which is empty, is given back. -/
theorem holds_release (h : Holds s l) {buf : Nat} (hpc : s.pop = .release buf)
    {cache : List Nat} (hcache : cache = s.bufcache ++ [s.bufR] ∨ cache = s.bufcache) :
    Holds { s with bufcache := cache, pop := .adopt buf } l.tail := by
  obtain ⟨hne, hempty, hset⟩ := h.reader.release buf hpc
  have hfirst : s.chain = s.bufR :: buf :: s.inuse := by simp [chain, hpc]
  have heq := hfirst.symm.trans h.writer.chain
  have hl : l ≠ [] := fun hnil =>
    hne ((head_iff heq (h.writer.chain ▸ h.nodup_chain)).2 hnil)
  obtain ⟨a, l', rfl⟩ := List.exists_cons_of_ne_nil hl
  simp only [List.cons_append, List.cons.injEq] at heq
  obtain ⟨rfl, heq⟩ := heq
  have hknown : s.known = s.bufR :: (buf :: s.inuse ++ held s.push ++ s.bufcache) := by
    simp [known, hfirst]
  have hnodup := hknown ▸ h.nodup
  have hmem : ∀ b ∈ buf :: s.inuse ++ held s.push ++ cache, b ∈ s.known := by
    intro b hb
    rw [hknown]
    rcases hcache with rfl | rfl
    · simp only [List.mem_append, List.mem_cons] at hb ⊢
      simp only [List.not_mem_nil, or_false] at hb
      tauto
    · exact List.mem_cons_of_mem _ hb
  refine ⟨h.size, ?_, fun b hb => h.fresh b (hmem b hb), fun b hb => ?_, h.unborn,
    fun b hb => h.between b (List.mem_of_mem_tail hb),
    ⟨heq, h.writer.new, fun hm _ => h.writer.left hm hl, h.writer.store⟩,
    ⟨by simp, by simp, by simp, by simp, fun b hb => ?_, by simp⟩, ?_, h.answers⟩
  · show (buf :: s.inuse ++ held s.push ++ cache).Nodup
    rcases hcache with rfl | rfl
    · rw [← List.append_assoc]
      exact (List.perm_append_singleton _ _).nodup_iff.2 hnodup
    · exact (List.nodup_cons.1 hnodup).2
  · have hb : b ∈ cache := hb
    rcases hcache with rfl | rfl
    · rw [List.mem_append, List.mem_singleton] at hb
      rcases hb with hb | rfl
      · exact h.cache b hb
      · exact hempty
    · exact h.cache b hb
  · simp only [UnboundedPop.adopt.injEq] at hb
    exact hb ▸ hset
  · have hrun := h.run
    rw [items, hfirst, List.flatMap_cons, hempty, List.nil_append] at hrun
    exact hrun

/-- The first item is taken. -/
theorem holds_take (h : Holds s l) (hpc : s.pop = .take) {data : α} {rest : List α}
    (hbuf : s.bufs s.bufR = data :: rest) :
    Holds { s with
      bufs := Function.update s.bufs s.bufR rest, pop := .idle
      popped := s.popped ++ [some data], acts := s.acts ++ [.take data] } l := by
  have hfirst : s.chain = s.bufR :: s.inuse := by simp [chain, hpc]
  have hinuse : s.bufR ∉ s.inuse := by
    have hnodup := h.nodup_chain
    rw [hfirst, List.nodup_cons] at hnodup
    exact hnodup.1
  have hother : ∀ b, b ≠ s.bufR → Function.update s.bufs s.bufR rest b = s.bufs b :=
    fun b hb => Function.update_of_ne hb _ _
  have hbehind : ∀ b, b ∈ l.tail ∨ b ∈ listed s.push ∨ (l ≠ [] ∧ b = s.bufW) → b ∈ s.inuse := by
    have heq := hfirst.symm.trans h.writer.chain
    intro b hb
    cases l with
    | nil =>
      simp only [List.nil_append, List.cons.injEq] at heq
      simpa [heq.2] using hb
    | cons a l =>
      simp only [List.cons_append, List.cons.injEq] at heq
      rw [heq.2]
      simp at hb ⊢
      tauto
  have hmem : s.bufR ∈ s.chain := by simp [hfirst]
  have hheld : s.bufR ∉ held s.push := by
    have hnodup := h.nodup
    simp only [known, List.nodup_append] at hnodup
    intro hb
    exact hnodup.1.2.2 _ hmem _ hb rfl
  have hwas : s.bufs s.bufR ≠ [] := by simp [hbuf]
  refine ⟨h.size, ?_, ?_, fun b hb => ?_, fun b hb => ?_, fun b hb => ?_,
    ⟨hfirst.symm.trans h.writer.chain, fun b hb => ?_, fun hm hl => ?_, fun d hd => ?_⟩,
    ⟨by simp, by simp, by simp, by simp, by simp, by simp⟩, ?_, ?_⟩
  · have hnodup := h.nodup
    rwa [known, hfirst] at hnodup
  · have hfresh := h.fresh
    rwa [known, hfirst] at hfresh
  · exact (hother b fun he => h.not_cached hmem (he ▸ hb)).trans (h.cache b hb)
  · refine (hother b fun he => ?_).trans (h.unborn b hb)
    exact hwas (h.unborn _ (he ▸ hb))
  · have hne : b ≠ s.bufR := fun he => hinuse (he ▸ hbehind b (.inl hb))
    show Function.update s.bufs s.bufR rest b ≠ []
    rw [hother b hne]
    exact h.between b hb
  · have hne : b ≠ s.bufR := by
      rintro rfl
      rw [List.mem_append] at hb
      rcases hb with hb | hb
      · exact hinuse (hbehind _ (.inr (.inl hb)))
      · exact hheld hb
    exact (hother b hne).trans (h.writer.new b hb)
  · have hne : s.bufW ≠ s.bufR := fun he => hinuse (he ▸ hbehind _ (.inr (.inr ⟨hl, rfl⟩)))
    show Function.update s.bufs s.bufR rest s.bufW ≠ []
    rw [hother _ hne]
    exact h.writer.left hm hl
  · have hroom := h.writer.store d hd
    show (Function.update s.bufs s.bufR rest s.bufW).length < s.size
    by_cases he : s.bufW = s.bufR
    · rw [he, hbuf, List.length_cons] at hroom
      rw [he, Function.update_self]
      omega
    · rwa [hother _ he]
  · have hrun := h.run
    rw [items, hfirst, List.flatMap_cons, hbuf] at hrun
    show FifoRun [] (s.acts ++ [.take data])
      ((s.bufR :: s.inuse).flatMap (Function.update s.bufs s.bufR rest))
    rw [List.flatMap_cons, flatMap_update hinuse, Function.update_self]
    exact FifoRun.take hrun
  · have hans := h.answers
    simp [List.reduceOption_append, hans]

theorem holds_read (h : Holds s l) : ∃ l', Holds s.read l' := by
  cases hpc : s.pop with
  | idle =>
    have hfirst : s.chain = s.bufR :: s.inuse := by simp [chain, hpc]
    cases hempty : s.bufs s.bufR with
    | nil =>
      have hstep : s.read = { s with pop := .compare s.items.isEmpty } := by
        simp [read, hpc, hempty]
      rw [hstep]
      refine ⟨l, h.withPop hfirst.symm ⟨fun e he hsame => ?_, by simp, by simp, by simp, by simp,
        by simp⟩ rfl⟩
      simp only [UnboundedPop.compare.injEq] at he
      have hl : l = [] := (h.same_iff hfirst).1 hsame
      have hchain := h.writer.chain
      rw [hl, List.nil_append] at hchain
      have hlisted : (listed s.push).flatMap s.bufs = [] := by
        simp only [List.flatMap_eq_nil_iff]
        exact fun b hb => h.writer.new b (List.mem_append_left _ hb)
      have hsame : s.bufR = s.bufW := hsame
      rw [← he, items, hchain, List.flatMap_cons, hlisted, ← hsame, hempty]
      rfl
    | cons a rest =>
      have hstep : s.read = { s with pop := .take } := by simp [read, hpc, hempty]
      rw [hstep]
      refine ⟨l, h.withPop hfirst.symm ⟨by simp, by simp, by simp, by simp, by simp, fun _ => ?_⟩
        rfl⟩
      exact .inl (by simp [hempty])
  | compare wasEmpty =>
    have hfirst : s.chain = s.bufR :: s.inuse := by simp [chain, hpc]
    by_cases hsame : s.bufR = s.bufW
    · have hstep : s.read = { s with pop := .idle, popped := s.popped ++ [none] } := by
        simp [read, hpc, hsame]
      rw [hstep]
      exact ⟨l, h.withPop hfirst.symm ⟨by simp, by simp, by simp, by simp, by simp, by simp⟩
        (by simp [List.reduceOption_append])⟩
    · have hstep : s.read = { s with pop := .recheck } := by simp [read, hpc, hsame]
      rw [hstep]
      exact ⟨l, h.withPop hfirst.symm ⟨by simp, fun _ => hsame, by simp, by simp, by simp, by simp⟩
        rfl⟩
  | recheck =>
    have hfirst : s.chain = s.bufR :: s.inuse := by simp [chain, hpc]
    have hne := h.reader.recheck hpc
    cases hempty : s.bufs s.bufR with
    | nil =>
      have hstep : s.read = { s with pop := .fetch } := by simp [read, hpc, hempty]
      rw [hstep]
      exact ⟨l, h.withPop hfirst.symm ⟨by simp, by simp, fun _ => ⟨hne, hempty⟩, by simp, by simp,
        by simp⟩ rfl⟩
    | cons a rest =>
      have hstep : s.read = { s with pop := .take } := by simp [read, hpc, hempty]
      rw [hstep]
      refine ⟨l, h.withPop hfirst.symm ⟨by simp, by simp, by simp, by simp, by simp, fun _ => ?_⟩
        rfl⟩
      exact .inl (by simp [hempty])
  | fetch =>
    obtain ⟨buf, rest, hinuse, hnext⟩ := holds_nextR h hpc
    have hstep : s.read = { s with inuse := rest, pop := .release buf } := by
      simp [read, hpc, hinuse]
    rw [hstep]
    exact ⟨l, hnext⟩
  | release buf =>
    have hempty := (h.reader.release buf hpc).2.1
    have hsame : Function.update s.bufs s.bufR [] = s.bufs := by
      rw [← hempty]
      exact Function.update_eq_self _ _
    have hstep : s.read = { s with
        bufcache := if s.bufcache.length < cacheSize then s.bufcache ++ [s.bufR] else s.bufcache
        pop := .adopt buf } := by simp [read, hpc, hsame]
    rw [hstep]
    refine ⟨_, holds_release h hpc ?_⟩
    split
    · exact .inl rfl
    · exact .inr rfl
  | adopt buf =>
    have hset := h.reader.adopt buf hpc
    have hfirst : s.chain = buf :: s.inuse := by simp [chain, hpc]
    have hstep : s.read = { s with bufR := buf, pop := .take } := by simp [read, hpc]
    have hnodup := h.nodup
    have hfresh := h.fresh
    have hrun := h.run
    rw [known, hfirst] at hnodup hfresh
    rw [items, hfirst] at hrun
    rw [hstep]
    exact ⟨l, h.size, hnodup, hfresh, h.cache, h.unborn, h.between,
      ⟨hfirst.symm.trans h.writer.chain, h.writer.new, h.writer.left, h.writer.store⟩,
      ⟨by simp, by simp, by simp, by simp, by simp, fun _ => hset⟩, hrun, h.answers⟩
  | take =>
    have hfirst : s.chain = s.bufR :: s.inuse := by simp [chain, hpc]
    cases hbuf : s.bufs s.bufR with
    | nil =>
      have hstep : s.read = { s with pop := .idle, popped := s.popped ++ [none] } := by
        simp [read, hpc, hbuf]
      rw [hstep]
      exact ⟨l, h.withPop hfirst.symm ⟨by simp, by simp, by simp, by simp, by simp, by simp⟩
        (by simp [List.reduceOption_append])⟩
    | cons data rest =>
      have hstep : s.read = { s with
          bufs := Function.update s.bufs s.bufR rest, pop := .idle
          popped := s.popped ++ [some data], acts := s.acts ++ [.take data] } := by
        simp [read, hpc, hbuf]
      rw [hstep]
      exact ⟨l, holds_take h hpc hbuf⟩

/-! ## Runs -/

theorem holds_run (h : Holds s l) (turns : List (Turn α)) :
    ∃ l', Holds (runFrom step s turns) l' := by
  refine runFrom_of_step (P := fun s => ∃ l, Holds s l) (fun s t hs => ?_) ⟨l, h⟩ turns
  obtain ⟨l, hs⟩ := hs
  cases t with
  | writer data => exact holds_write hs data
  | reader => exact holds_read hs

/-- A reader that takes finds an item in its buffer, or there is none. -/
theorem Holds.take_empty (h : Holds s l) (hpc : s.pop = .take) (hempty : s.bufs s.bufR = []) :
    s.items = [] := by
  have hfirst : s.chain = s.bufR :: s.inuse := by simp [chain, hpc]
  rcases h.reader.take hpc with hne | ⟨hinuse, -⟩
  · exact absurd hempty hne
  · simp [items, hfirst, hinuse, hempty]

/-- **An unbounded buffer is a queue**, whatever turns the two threads take: every item that is
pushed is stored and comes out once and in order, a `pop` fails only when there was no item as it
looked at its buffer for the first time or for the last, and no buffer that has been given back is
in use. -/
theorem unbounded_fifo {size : Nat} (h : 0 < size) (turns : List (Turn α)) :
    let s := runFrom step (init size) turns
    FifoRun [] s.acts s.items ∧ takes s.acts = s.popped.reduceOption ∧
      (∀ data, s.push = .store data → (s.bufs s.bufW).length < s.size) ∧
      (∀ wasEmpty, s.pop = .compare wasEmpty → s.bufR = s.bufW → wasEmpty = true) ∧
      (s.pop = .take → s.bufs s.bufR = [] → s.items = []) ∧
      (s.pop = .fetch → s.inuse ≠ []) ∧ s.known.Nodup := by
  intro s
  obtain ⟨l, hl⟩ : ∃ l, Holds s l := holds_run (holds_init h) turns
  refine ⟨hl.run, hl.answers, hl.writer.store, hl.reader.compare, hl.take_empty, fun hpc => ?_,
    hl.nodup⟩
  obtain ⟨buf, rest, hinuse, -⟩ := holds_nextR hl hpc
  simp [hinuse]

theorem unbounded_fifo_demo :
    let s := runFrom step (init 1 : Unbounded Nat)
      [.writer 7, .writer 7, .writer 8, .writer 8, .reader, .writer 8, .writer 8, .writer 8, .reader]
    FifoRun [] s.acts s.items ∧ takes s.acts = s.popped.reduceOption ∧
      (∀ data, s.push = .store data → (s.bufs s.bufW).length < s.size) ∧
      (∀ wasEmpty, s.pop = .compare wasEmpty → s.bufR = s.bufW → wasEmpty = true) ∧
      (s.pop = .take → s.bufs s.bufR = [] → s.items = []) ∧
      (s.pop = .fetch → s.inuse ≠ []) ∧ s.known.Nodup :=
  unbounded_fifo (by decide) _

end Fix8.Queue.Unbounded
