import Fix8.Codec.Reuse
import Fix8.Codec.Proof.Assembled

/-!
# Messages that are used again

An encode changes the values of fields that it does not write in the order of `_pos`, and the
`suppress` bits of these. `setup_reuse` sets the bits again and takes out the MsgSeqNum, which is
added at the place where it was: the containers are then `Twin` to those before the encode.

* `Twin`: containers that write the same; `twin_assign`, `twin_setSuppress`, `twin_readd`: what the
  steps of a cycle keep;
* **`reuse_repeats`**.
-/

namespace Fix8.Codec

open Lib

/-! ## Twins -/

section
variable {D : Type} {lead : List (Nat × Nat)} {loose bare : List Nat} {o o' own : FieldStore D}
  {f : BaseField D} {k : Nat} {v : Value D}

/-- The containers differ only in the values under the tags `loose`, in `suppress` bits of the tags
`bare`, and in the objects: those of the constructor and the MsgSeqNum may be others. -/
structure Twin (lead : List (Nat × Nat)) (loose bare : List Nat) (o o' : FieldStore D) : Prop where
  placed : Placed lead o'
  leads : Leads lead o'
  has : ∀ k, o'.fp.has k = o.fp.has k
  getPos : ∀ k, o'.fp.getPos k = o.fp.getPos k
  isGroup : ∀ k, o'.fp.isGroup k = o.fp.isGroup k
  suppress : ∀ k, k ∉ bare → o'.fp.suppress k = o.fp.suppress k
  unknown : o'.unknown = o.unknown
  values : ∀ k, k ∉ loose →
    (o'.fields.get? k).map (·.value) = (o.fields.get? k).map (·.value)
  ids : ∀ k f', k ≠ commonMsgSeqNum → o'.fields.get? k = some f' →
    ∃ f, o.fields.get? k = some f ∧ f.id = f'.id

theorem twin_refl (h : Placed lead o) (hleads : Leads lead o) : Twin lead loose bare o o :=
  ⟨h, hleads, fun _ => rfl, fun _ => rfl, fun _ => rfl, fun _ _ => rfl, rfl, fun _ _ => rfl,
    fun _ f' _ hf' => ⟨f', hf', rfl⟩⟩

/-- `set` on an object of `add_preamble`. -/
theorem get?_assign (h : Leads lead o) (hk : k ∈ lead.map Prod.fst) (j : Nat) :
    (o.assign (preambleId k) k v).fields.get? j =
      if j = k then some (preambleField k v) else o.fields.get? j := by
  obtain ⟨w, hw⟩ := h k hk
  unfold FieldStore.assign
  rw [hw]
  show (if preambleId k = preambleId k then _ else o : FieldStore D).fields.get? j = _
  rw [if_pos rfl]
  show (o.fields.replace k _).get? j = _
  rw [OrdMap.get?_replace, hw]
  rfl

theorem Twin.mono {loose' bare' : List Nat} (h : Twin lead loose bare o o')
    (hloose : loose ⊆ loose') (hbare : bare ⊆ bare') : Twin lead loose' bare' o o' :=
  ⟨h.placed, h.leads, h.has, h.getPos, h.isGroup, fun k hk => h.suppress k (mt (@hbare k) hk),
    h.unknown, fun k hk => h.values k (mt (@hloose k) hk), h.ids⟩

/-- A tag is not loose where the values are the same. -/
theorem Twin.tighten (h : Twin lead (k :: loose) bare o o')
    (hvalue : (o'.fields.get? k).map (·.value) = (o.fields.get? k).map (·.value)) :
    Twin lead loose bare o o' := by
  refine ⟨h.placed, h.leads, h.has, h.getPos, h.isGroup, h.suppress, h.unknown, fun j hj => ?_, h.ids⟩
  by_cases hjk : j = k
  · rw [hjk, hvalue]
  · exact h.values j fun hmem => (List.mem_cons.1 hmem).elim hjk hj

theorem twin_assign (h : Twin lead (k :: loose) bare o o') (hk : k ∈ lead.map Prod.fst)
    (hvalue : k ∈ loose ∨ (o.fields.get? k).map (·.value) = some v) :
    Twin lead loose bare o (o'.assign (preambleId k) k v) where
  placed := placed_assign h.placed
  leads := by
    intro j hj
    rw [get?_assign h.leads hk]
    split
    · rename_i heq
      exact ⟨v, by rw [heq]⟩
    · exact h.leads j hj
  has := fun j => by rw [fp_assign, h.has]
  getPos := fun j => by rw [fp_assign, h.getPos]
  isGroup := fun j => by rw [fp_assign, h.isGroup]
  suppress := fun j hj => by rw [fp_assign, h.suppress j hj]
  unknown := unknown_assign.trans h.unknown
  values := by
    intro j hj
    rw [get?_assign h.leads hk]
    split
    · rename_i heq
      subst heq
      exact (hvalue.resolve_left hj).symm
    · rename_i hne
      exact h.values j fun hmem => (List.mem_cons.1 hmem).elim hne hj
  ids := by
    intro j f' hj hf'
    rw [get?_assign h.leads hk] at hf'
    split at hf'
    · rename_i heq
      subst heq
      obtain rfl := Option.some.inj hf'
      obtain ⟨w, hw⟩ := h.leads j hk
      obtain ⟨f, hf, hid⟩ := h.ids j _ hj hw
      exact ⟨f, hf, hid⟩
    · exact h.ids j f' hj hf'

/-- A change of `suppress` bits. -/
theorem Twin.update {bare' : List Nat} {b : Bool} (h : Twin lead loose bare o o')
    (hsuppress : ∀ j, j ∉ bare' →
      (o'.fp.update k fun t => { t with suppress := b }).suppress j = o.fp.suppress j) :
    Twin lead loose bare' o { o' with fp := o'.fp.update k fun t => { t with suppress := b } } := by
  have hhas : ∀ j, (o'.fp.update k fun t => { t with suppress := b }).has j = o'.fp.has j :=
    fun _ => FieldTraits.has_update fun _ => rfl
  have hgetPos : ∀ j, (o'.fp.update k fun t => { t with suppress := b }).getPos j =
      o'.fp.getPos j := fun _ => FieldTraits.getPos_update (fun _ => rfl) fun _ => rfl
  have hisGroup : ∀ j, (o'.fp.update k fun t => { t with suppress := b }).isGroup j =
      o'.fp.isGroup j := fun _ => FieldTraits.any_update (fun _ => rfl) fun _ => rfl
  have hpresent : ∀ j, (o'.fp.update k fun t => { t with suppress := b }).present j =
      o'.fp.present j := fun _ => FieldTraits.any_update (fun _ => rfl) fun _ => rfl
  exact {
    placed := h.placed.congr rfl (fun _ => rfl) hhas hgetPos hpresent
    leads := h.leads
    has := fun j => (hhas j).trans (h.has j)
    getPos := fun j => (hgetPos j).trans (h.getPos j)
    isGroup := fun j => (hisGroup j).trans (h.isGroup j)
    suppress := hsuppress
    unknown := h.unknown
    values := h.values
    ids := h.ids }

theorem suppress_update_of_ne {fp : FieldTraits} {b : Bool} {j : Nat} (h : j ≠ k) :
    (fp.update k fun t => { t with suppress := b }).suppress j = fp.suppress j := by
  unfold FieldTraits.suppress
  rw [FieldTraits.find_update_of_ne (f := fun t => { t with suppress := b }) (fun _ => rfl) h]

theorem twin_clearSuppress (h : Twin lead loose bare o o') (hk : k ∈ bare) :
    Twin lead loose bare o { o' with fp := o'.fp.clearSuppress k } := by
  refine h.update fun j hj => ?_
  have hne : j ≠ k := fun heq => hj (heq ▸ hk)
  rw [suppress_update_of_ne hne, h.suppress j hj]

theorem twin_setSuppress (h : Twin lead loose (k :: bare) o o') (hk : o.fp.suppress k = true) :
    Twin lead loose bare o { o' with fp := o'.fp.setSuppress k } := by
  refine h.update fun j hj => ?_
  by_cases hjk : j = k
  · subst hjk
    have hhas : o'.fp.has j = true := by
      rw [h.has, FieldTraits.has]
      unfold FieldTraits.suppress at hk
      cases hfind : o.fp.find j with
      | none => simp [hfind] at hk
      | some t => rfl
    obtain ⟨t, ht⟩ := Option.isSome_iff_exists.1 hhas
    rw [hk, FieldTraits.suppress,
      FieldTraits.find_update (f := fun t => { t with suppress := true }) fun _ => rfl, ht,
      Option.map_some, Option.any_some, if_pos (FieldTraits.find_fnum ht)]
  · rw [suppress_update_of_ne hjk, h.suppress j (by simp [hjk, hj])]

theorem twin_remove (h : Twin lead loose bare o o') (hlead : k ∉ lead.map Prod.fst) :
    Twin lead (k :: loose) bare o (o'.remove k) ∧ (o'.remove k).fields.get? k = none := by
  have hget : ∀ j, (o'.remove k).fields.get? j = if j = k then none else o'.fields.get? j := by
    intro j
    unfold FieldStore.remove
    cases hold : o'.fields.get? k with
    | none =>
      by_cases heq : j = k
      · rw [if_pos heq, heq, hold]
      · rw [if_neg heq]
    | some old => exact OrdMap.get?_erase
  have hfp : SameTraits o'.fp (o'.remove k).fp := by
    unfold FieldStore.remove
    split
    · rfl
    · exact sameTraits_clearPresent
  refine ⟨?_, by rw [hget, if_pos rfl]⟩
  constructor
  · exact placed_remove h.placed
  · intro j hj
    rw [hget, if_neg]
    · exact h.leads j hj
    · rintro rfl
      exact hlead hj
  · exact fun j => (hfp.has j).trans (h.has j)
  · exact fun j => (hfp.getPos j).trans (h.getPos j)
  · exact fun j => (hfp.isGroup j).trans (h.isGroup j)
  · exact fun j hj => (hfp.suppress j).trans (h.suppress j hj)
  · refine Eq.trans ?_ h.unknown
    unfold FieldStore.remove
    split <;> rfl
  · intro j hj
    obtain ⟨hjk, hj⟩ := not_or.1 (mt List.mem_cons.2 hj)
    rw [hget, if_neg hjk, h.values j hj]
  · intro j f' hj hf'
    rw [hget] at hf'
    split at hf'
    · exact absurd hf' (by simp)
    · exact h.ids j f' hj hf'

/-- The MsgSeqNum is added again. -/
theorem twin_addField (h : Twin lead (commonMsgSeqNum :: loose) bare o o')
    (hlead : commonMsgSeqNum ∉ lead.map Prod.fst) (hf : f.fnum = commonMsgSeqNum)
    (hnew : ∀ e ∈ o'.pos, e.2.id ≠ f.id)
    (hvalue : (o.fields.get? commonMsgSeqNum).map (·.value) = some f.value)
    (hadd : o'.addField f = .ok own) : Twin lead loose bare o own := by
  have hget : ∀ j, own.fields.get? j = if j = commonMsgSeqNum then some f else o'.fields.get? j := by
    intro j
    rw [h.placed.get?_addField hadd, hf]
  have hfp := sameTraits_addField hadd
  constructor
  · refine placed_addField h.placed ?_ hnew hadd
    rw [hf]
    exact not_not.1 (mt mem_lead_iff.2 hlead)
  · intro j hj
    rw [hget, if_neg]
    · exact h.leads j hj
    · rintro rfl
      exact hlead hj
  · exact fun j => (hfp.has j).trans (h.has j)
  · exact fun j => (hfp.getPos j).trans (h.getPos j)
  · exact fun j => (hfp.isGroup j).trans (h.isGroup j)
  · exact fun j hj => (hfp.suppress j).trans (h.suppress j hj)
  · exact (unknown_addField hadd).trans h.unknown
  · intro j hj
    rw [hget]
    split
    · rename_i heq
      rw [heq, hvalue]
      rfl
    · rename_i hne
      exact h.values j fun hmem => (List.mem_cons.1 hmem).elim hne hj
  · intro j f' hj hf'
    rw [hget, if_neg hj] at hf'
    exact h.ids j f' hj hf'

/-- Twins whose loose fields are not written write the same. -/
theorem encode_twin [FpType D] {m m' : MessageBase D} (h : Twin lead loose [] m.own m'.own)
    (hm : Placed lead m.own) (hgroups : m'.groups = m.groups)
    (hloose : ∀ k ∈ loose, m.own.fp.suppress k = true) : m'.encode = m.encode := by
  have hsuppress : ∀ k, m'.own.fp.suppress k = m.own.fp.suppress k :=
    fun k => h.suppress k List.not_mem_nil
  have hwire : m'.own.wire = m.own.wire := by
    refine hm.wire_eq h.placed h.getPos hsuppress fun k hk => h.values k fun hmem => ?_
    rw [hloose k hmem] at hk
    exact absurd hk (by decide)
  have hgroup : m'.groupText = m.groupText := by
    funext k
    unfold MessageBase.groupText MessageBase.findGroup
    rw [hgroups]
  have hisGroup : m'.own.fp.isGroup = m.own.fp.isGroup := funext h.isGroup
  rw [encode_eq_wire, encode_eq_wire, hwire, hgroup, hisGroup, h.unknown]

end

/-! ## The text of an encode -/

section
variable {D : Type} [FpType D] {msg : Message D}

omit [FpType D] in
/-- One of the objects of `add_preamble`, in its place. -/
theorem of_preamble {m : MessageBase D} {k : Nat} {f : BaseField D} (h : m.preamble k = .ok f) :
    m.own.fields.get? k = some f ∧ f.id = preambleId k := by
  unfold MessageBase.preamble MessageBase.getField at h
  cases hf : m.own.fields.get? k with
  | none =>
    rw [hf] at h
    exact absurd h (by simp [throw, throwThe, MonadExceptOf.throw])
  | some f' =>
    rw [hf] at h
    dsimp only at h
    split at h
    · rename_i hid
      obtain rfl := Except.ok.inj h
      exact ⟨rfl, hid⟩
    · exact absurd h (by simp [throw, throwThe, MonadExceptOf.throw])

omit [FpType D] in
/-- `set` leaves the object where it is. -/
theorem get?_of_setPreamble {m : MessageBase D} {j k : Nat} {w : Value D} {f : BaseField D}
    (h : (m.setPreamble j w).own.fields.get? k = some f) :
    ∃ f', m.own.fields.get? k = some f' ∧ f'.id = f.id := by
  by_cases hk : k = j
  · subst hk
    have hassign : (m.own.assign (preambleId k) k w).fields.get? k = some f := h
    unfold FieldStore.assign at hassign
    cases hold : m.own.fields.get? k with
    | none =>
      rw [hold] at hassign
      exact absurd (hold.symm.trans hassign) (by simp)
    | some old =>
      rw [hold] at hassign
      dsimp only at hassign
      split at hassign
      · have hreplace : (m.own.fields.replace k _).get? k = some f := hassign
        rw [OrdMap.get?_replace, if_pos rfl, hold, Option.map_some] at hreplace
        obtain rfl := Option.some.inj hreplace
        exact ⟨old, rfl, rfl⟩
      · exact ⟨f, hold.symm.trans hassign, rfl⟩
  · exact ⟨f, (getField_setPreamble hk).symm.trans h, rfl⟩

/-- An encode that returns has written through the objects of `add_preamble`. -/
theorem of_encodeLive {r : F8String × Message D} (h : msg.encodeLive = .ok r) :
    (∃ content, msg.payload = .ok content) ∧
      ¬ Usurped headerLead [] msg.header.own ∧ ¬ Usurped trailerLead [] msg.trailer.own := by
  obtain ⟨f₃₅, h₃₅, h⟩ := bind_eq_ok h
  obtain ⟨head, hhead, h⟩ := bind_eq_ok h
  obtain ⟨body, hbody, h⟩ := bind_eq_ok h
  obtain ⟨tail, htail, h⟩ := bind_eq_ok h
  obtain ⟨f₈, h₈, h⟩ := bind_eq_ok h
  obtain ⟨f₉, h₉, h⟩ := bind_eq_ok h
  obtain ⟨f₁₀, h₁₀, h⟩ := bind_eq_ok h
  have hpayload : msg.payload = .ok (head ++ body ++ tail) := by
    unfold Message.payload
    rw [hhead, ok_bind, hbody, ok_bind, htail]
    rfl
  refine ⟨⟨_, hpayload⟩, ?_, ?_⟩
  · rintro ⟨k, hk, -, hne⟩
    simp only [headerLead, List.map_cons, List.map_nil, List.mem_cons, List.not_mem_nil,
      or_false] at hk
    rcases hk with rfl | rfl | rfl
    · obtain ⟨hget, hid⟩ := of_preamble h₈
      obtain ⟨f', hf', heq⟩ := get?_of_setPreamble hget
      exact hne f' hf' (heq.trans hid)
    · obtain ⟨hget, hid⟩ := of_preamble h₉
      obtain ⟨f', hf', heq⟩ := get?_of_setPreamble hget
      obtain ⟨f'', hf'', heq'⟩ := get?_of_setPreamble hf'
      exact hne f'' hf'' ((heq'.trans heq).trans hid)
    · obtain ⟨hget, hid⟩ := of_preamble h₃₅
      exact hne _ hget hid
  · rintro ⟨k, hk, -, hne⟩
    obtain rfl := List.mem_singleton.1 hk
    obtain ⟨hget, hid⟩ := of_preamble h₁₀
    obtain ⟨f', hf', heq⟩ := get?_of_setPreamble hget
    exact hne f' hf' (heq.trans hid)

end

/-! ## Cycles -/

section
variable {D : Type} [FpType D] {msg m : Message D} {id : ObjId}

/-- The header before an encode, with the MsgType that the encode sets. -/
def Message.typed (msg : Message D) : MessageBase D :=
  msg.header.setPreamble commonMsgType (.string msg.msgType)

/-- `m` is encoded like `msg`. -/
structure Ready (msg m : Message D) : Prop where
  msgType : m.msgType = msg.msgType
  body : m.body = msg.body
  headerGroups : m.header.groups = msg.header.groups
  trailerGroups : m.trailer.groups = msg.trailer.groups
  header : Twin headerLead [commonMsgType, commonBodyLength] [] msg.typed.own m.header.own
  trailer : Twin trailerLead [commonCheckSum] [] msg.trailer.own m.trailer.own

/-- What a cycle needs to know of the message that is encoded first. -/
structure Encodable (msg : Message D) : Prop where
  header : Placed headerLead msg.header.own
  headerLeads : Leads headerLead msg.header.own
  trailer : Placed trailerLead msg.trailer.own
  trailerLeads : Leads trailerLead msg.trailer.own
  beginString : msg.header.own.fp.suppress commonBeginString = true
  bodyLength : msg.header.own.fp.suppress commonBodyLength = true
  checkSum : msg.trailer.own.fp.suppress commonCheckSum = true

omit [FpType D] in
theorem Encodable.ready (h : Encodable msg) : Ready msg msg := by
  have hmem : commonMsgType ∈ headerLead.map Prod.fst := by decide
  refine ⟨rfl, rfl, rfl, rfl, ?_, twin_refl h.trailer h.trailerLeads⟩
  have hfp : msg.typed.own.fp = msg.header.own.fp := fp_assign
  refine ⟨h.header, h.headerLeads, fun k => by rw [hfp], fun k => by rw [hfp], fun k => by rw [hfp],
    fun k _ => by rw [hfp], unknown_assign.symm, ?_, ?_⟩
  · intro k hk
    have hne : k ≠ commonMsgType := by
      rintro rfl
      exact hk List.mem_cons_self
    exact congrArg (Option.map (·.value)) (getField_setPreamble hne).symm
  · intro k f' _ hf'
    by_cases hk : k = commonMsgType
    · subst hk
      obtain ⟨v, hv⟩ := h.headerLeads _ hmem
      rw [hv] at hf'
      obtain rfl := Option.some.inj hf'
      exact ⟨_, (get?_assign h.headerLeads hmem _).trans (if_pos rfl), rfl⟩
    · exact ⟨f', (getField_setPreamble hk).trans hf', rfl⟩

omit [FpType D] in
theorem Ready.typed (h : Ready msg m) (hmsg : Encodable msg) :
    Twin headerLead [commonBodyLength] [] msg.typed.own m.typed.own := by
  have hmem : commonMsgType ∈ headerLead.map Prod.fst := by decide
  have htyped : m.typed = m.header.setPreamble commonMsgType (.string msg.msgType) := by
    rw [Message.typed, h.msgType]
  rw [htyped]
  refine twin_assign h.header hmem (.inr ?_)
  exact congrArg (Option.map (·.value)) ((get?_assign hmsg.headerLeads hmem _).trans (if_pos rfl))

theorem Ready.payload (h : Ready msg m) (hmsg : Encodable msg) : m.payload = msg.payload := by
  have hhead : m.typed.encode = msg.typed.encode := by
    refine encode_twin (h.typed hmsg) (placed_assign hmsg.header) h.headerGroups ?_
    intro k hk
    obtain rfl := List.mem_singleton.1 hk
    rw [show msg.typed.own.fp = msg.header.own.fp from fp_assign]
    exact hmsg.bodyLength
  have htail : m.trailer.encode = msg.trailer.encode := by
    refine encode_twin h.trailer hmsg.trailer h.trailerGroups ?_
    intro k hk
    obtain rfl := List.mem_singleton.1 hk
    exact hmsg.checkSum
  unfold Message.typed at hhead
  unfold Message.payload
  rw [hhead, h.body, htail]

/-- A message that is encoded like another has the same text. -/
theorem Ready.encodeLive {content : F8String} (h : Ready msg m) (hmsg : Encodable msg)
    (hpayload : msg.payload = .ok content) :
    ∃ n pre text, msg.encodeLive = .ok (text, msg.encoded n pre) ∧
      m.encodeLive = .ok (text, m.encoded n pre) := by
  obtain ⟨v₈, h₈⟩ := hmsg.headerLeads commonBeginString (by decide)
  obtain ⟨w₈, hw₈⟩ := h.header.leads commonBeginString (by decide)
  have hvalue := h.header.values commonBeginString (by decide)
  have htyped : msg.typed.own.fields.get? commonBeginString =
      msg.header.own.fields.get? commonBeginString := getField_setPreamble (by decide)
  rw [htyped, h₈, hw₈] at hvalue
  obtain rfl : w₈ = v₈ := Option.some.inj hvalue
  exact ⟨_, _, _, encodeLive_of_payload hmsg.headerLeads hmsg.trailerLeads h₈ hpayload,
    encodeLive_of_payload h.header.leads h.trailer.leads hw₈ ((h.payload hmsg).trans hpayload)⟩

omit [FpType D] in
/-- The header after an encode and `setup_reuse`, but for the MsgSeqNum. -/
theorem Ready.reuse (n : Nat) (pre : F8String) (h : Ready msg m) (hmsg : Encodable msg) :
    Twin headerLead [commonMsgSeqNum, commonBodyLength] [] msg.typed.own
      ((m.encoded n pre).setupReuse).header.own ∧
    ((m.encoded n pre).setupReuse).header.own.fields.get? commonMsgSeqNum = none := by
  have hfp : msg.typed.own.fp = msg.header.own.fp := fp_assign
  have htyped := (h.typed hmsg).mono (List.Subset.refl _)
    (List.nil_subset [commonBeginString, commonBodyLength])
  have hbegin := twin_clearSuppress htyped (k := commonBeginString) List.mem_cons_self
  have hlength := twin_clearSuppress hbegin (k := commonBodyLength) (by decide)
  have htwice : [commonBodyLength] ⊆ [commonBodyLength, commonBodyLength] := by simp
  have hassign := twin_assign (v := .int n) (hlength.mono htwice (List.Subset.refl _))
    (by decide) (.inl List.mem_cons_self)
  have hset₈ := twin_setSuppress hassign (hfp ▸ hmsg.beginString)
  have hset₉ := twin_setSuppress hset₈ (hfp ▸ hmsg.bodyLength)
  exact twin_remove hset₉ (by decide)

omit [FpType D] in
theorem Ready.reuse_trailer (n : Nat) (pre : F8String) (h : Ready msg m)
    (hmsg : Encodable msg) :
    Twin trailerLead [commonCheckSum] [] msg.trailer.own
      ((m.encoded n pre).setupReuse).trailer.own := by
  have htwice : [commonCheckSum] ⊆ [commonCheckSum, commonCheckSum] := by simp
  have hassign := twin_assign (v := .string (fmtChksum (calcChksum pre)))
    (h.trailer.mono htwice (List.nil_subset [commonCheckSum])) (by decide) (.inl List.mem_cons_self)
  exact twin_setSuppress (twin_clearSuppress hassign List.mem_cons_self) hmsg.checkSum

/-- The object is none of the header's, but for the MsgSeqNum. -/
def NewIn (msg : Message D) (id : ObjId) : Prop :=
  ∀ k f, k ≠ commonMsgSeqNum → msg.header.getField k = some f → f.id ≠ id

/-- A cycle encodes a message that is encoded like the first. -/
theorem Ready.cycle (n : Nat) (pre : F8String) (h : Ready msg m) (hmsg : Encodable msg)
    (hnew : NewIn msg id) :
    ∃ m', Ready msg m' ∧ (m.encoded n pre).cycle id = m'.encodeLive := by
  obtain ⟨hheader, hremoved⟩ := h.reuse n pre hmsg
  have htrailer := h.reuse_trailer n pre hmsg
  have hloose : [commonBodyLength] ⊆ [commonMsgType, commonBodyLength] := by simp
  have hgetField : (m.encoded n pre).header.getField commonMsgSeqNum =
      m.header.getField commonMsgSeqNum :=
    (getField_setPreamble (by decide)).trans (getField_setPreamble (by decide))
  have hvalue : (m.header.own.fields.get? commonMsgSeqNum).map (·.value) =
      (msg.typed.own.fields.get? commonMsgSeqNum).map (·.value) :=
    h.header.values _ (by decide)
  unfold Message.cycle
  dsimp only
  rw [hgetField]
  cases hseqnum : m.header.getField commonMsgSeqNum with
  | none =>
    have hnone : m.header.own.fields.get? commonMsgSeqNum = none := hseqnum
    rw [hnone] at hvalue
    have htwin := hheader.tighten (by rw [hremoved, ← hvalue])
    exact ⟨(m.encoded n pre).setupReuse, ⟨h.msgType, h.body, h.headerGroups, h.trailerGroups,
      htwin.mono hloose (List.Subset.refl _), htrailer⟩, rfl⟩
  | some seqnum =>
    have hget : m.header.own.fields.get? commonMsgSeqNum = some seqnum := hseqnum
    rw [hget] at hvalue
    obtain ⟨hfnum, -⟩ := h.header.placed.field _ _ hget
    have hhas : (m.encoded n pre).setupReuse.header.own.fp.has seqnum.fnum = true := by
      rw [hheader.has, hfnum, ← h.header.has]
      exact h.header.placed.legal _ _ hget rfl
    obtain ⟨own, hadd⟩ : ∃ own, (m.encoded n pre).setupReuse.header.own.addField
        { seqnum with id := id } = .ok own := ⟨_, if_pos hhas⟩
    have hfresh : ∀ e ∈ (m.encoded n pre).setupReuse.header.own.pos, e.2.id ≠ id := by
      intro e he
      obtain ⟨hentry, -⟩ := hheader.placed.entry e he
      have hne : e.2.fnum ≠ commonMsgSeqNum := by
        intro heq
        rw [heq, hremoved] at hentry
        exact absurd hentry (by simp)
      obtain ⟨f, hf, hid⟩ := hheader.ids _ _ hne hentry
      obtain ⟨f', hf', hid'⟩ := get?_of_setPreamble hf
      rw [← hid, ← hid']
      exact hnew _ f' hne hf'
    have htwin := twin_addField (f := { seqnum with id := id }) hheader (by decide) hfnum hfresh
      hvalue.symm hadd
    simp only [hadd]
    refine ⟨{ (m.encoded n pre).setupReuse with
      header := (m.encoded n pre).setupReuse.header.withOwn own }, ?_, rfl⟩
    exact ⟨h.msgType, h.body, h.headerGroups, h.trailerGroups,
      htwin.mono hloose (List.Subset.refl _), htrailer⟩

/-- Each of a number of cycles has the text of the first encode. -/
theorem Ready.cycles {content text : F8String} {r : Message D} (hmsg : Encodable msg)
    (hpayload : msg.payload = .ok content) (htext : msg.encodeLive = .ok (text, r)) :
    ∀ (ids : List ObjId) (n : Nat) (pre : F8String) {m : Message D}, (∀ id ∈ ids, NewIn msg id) →
      Ready msg m → (m.encoded n pre).cycles ids = .ok (ids.map fun _ => text)
  | [], _, _, _, _, _ => rfl
  | id :: ids, n, pre, m, hnew, h => by
    obtain ⟨m', hm', hcycle⟩ := h.cycle n pre hmsg (hnew id List.mem_cons_self)
    obtain ⟨n', pre', text', hfirst, hnext⟩ := hm'.encodeLive hmsg hpayload
    have hsame : text' = text := congrArg Prod.fst (Except.ok.inj (hfirst.symm.trans htext))
    have hrest := Ready.cycles hmsg hpayload htext ids n' pre'
      (fun id hid => hnew id (List.mem_cons_of_mem _ hid)) hm'
    rw [Message.cycles, hcycle, hnext, ok_bind]
    dsimp only
    rw [hrest, ok_bind, hsame]
    rfl

/-- Every encode of a message that is assembled from a new one has the same text, in any number of
cycles of `setup_reuse`, the same MsgSeqNum in a new object, and an encode. -/
theorem reuse_repeats {cx : F8MetaCntx} {bme : MessageClass} {deepctor deep : Bool}
    (hframe : FrameSchema cx) (hschema : TableSchema cx bme)
    (hmsg : AssembledMessage cx bme deepctor deep [] [] msg) {text : F8String} {after : Message D}
    (htext : msg.encodeLive = .ok (text, after)) {ids : List ObjId}
    (hids : ∀ id ∈ ids, NewIn msg id) : after.cycles ids = .ok (ids.map fun _ => text) := by
  obtain ⟨⟨content, hpayload⟩, hheader, htrailer⟩ := of_encodeLive htext
  obtain ⟨hplaced, hleads⟩ := (assembled_placed hmsg.header (placed_mkHdr hschema.header.traits)
    leads_mkHdr).resolve_right hheader
  obtain ⟨hplaced', hleads'⟩ := (assembled_placed hmsg.trailer (placed_mkTrl hschema.trailer.traits)
    leads_mkTrl).resolve_right htrailer
  have htraits : SameTraits cx.header.traits msg.header.own.fp :=
    (sameTraits_mkHdr cx).trans (assembled_static hmsg.header).1
  have htraits' : SameTraits cx.trailer.traits msg.trailer.own.fp :=
    (sameTraits_mkTrl cx).trans (assembled_static hmsg.trailer).1
  have hencodable : Encodable msg := by
    refine ⟨hplaced, hleads, hplaced', hleads', ?_, ?_, ?_⟩
    · rw [htraits.suppress, hframe.header.suppressed _ (by decide)]
      rfl
    · rw [htraits.suppress, hframe.header.suppressed _ (by decide)]
      rfl
    · rw [htraits'.suppress, hframe.trailer.suppressed _ (by decide)]
      rfl
  obtain ⟨n, pre, text', hfirst, -⟩ := hencodable.ready.encodeLive hencodable hpayload
  obtain rfl : after = msg.encoded n pre :=
    congrArg Prod.snd (Except.ok.inj (htext.symm.trans hfirst))
  exact Ready.cycles hencodable hpayload htext ids n pre hids hencodable.ready

end

/-! ## A heartbeat -/

theorem demoCntx_tables : TableSchema demoCntx ⟨[], []⟩ := by
  have hnone : ∀ c ∈ ([] : List GroupClass), c.Tables := fun c hc => absurd hc List.not_mem_nil
  refine ⟨.mk _ _ _ (table_of_mem ?_ ?_ ?_) List.nodup_nil hnone,
    .mk _ _ _ (table_of_mem ?_ ?_ ?_) List.nodup_nil hnone,
    .mk _ _ _ (table_of_mem ?_ ?_ ?_) List.nodup_nil hnone⟩
  all_goals decide +kernel

/-- A heartbeat with the MsgSeqNum 5. -/
def demoNumbered : Message Unit :=
  let msg := demoCntx.newMessage (ascii "0") ⟨[], []⟩ true
  let seqnum : BaseField Unit := ⟨⟨1, 0⟩, commonMsgSeqNum, .int 5⟩
  { msg with header := msg.header.withOwn ((msg.header.own.addFieldDecoder commonMsgSeqNum 9
      seqnum).setPresent commonMsgSeqNum) }

theorem reuse_repeats_numbered : ∃ text after, demoNumbered.encodeLive = .ok (text, after) ∧
    after.cycles [⟨2, 0⟩, ⟨3, 0⟩] = .ok [text, text] := by
  have hok : demoNumbered.encodeLive.toOption.isSome = true := by decide +kernel
  obtain ⟨⟨text, after⟩, htext⟩ := Option.isSome_iff_exists.1 hok
  have hmsg : AssembledMessage demoCntx ⟨[], []⟩ true true [] [] demoNumbered := by
    refine ⟨.add ⟨⟨1, 0⟩, commonMsgSeqNum, .int 5⟩ _ (.refl _ _ _) (by decide) (by decide)
      (by decide) rfl, .refl _ _ _, .refl _ _ _⟩
  have hcall : ∀ k f, demoNumbered.header.getField k = some f → f.id.call < 2 := by
    have hall : ∀ e ∈ demoNumbered.header.own.fields.entries, e.2.id.call < 2 := by decide +kernel
    exact fun k f hf => hall _ (OrdMap.get?_eq_some.1 hf)
  refine ⟨text, after, toOption_eq_some htext, reuse_repeats demoCntx_frame demoCntx_tables hmsg
    (toOption_eq_some htext) fun id hid k f _ hf heq => ?_⟩
  have hlt := hcall k f hf
  rw [heq] at hlt
  simp only [List.mem_cons, List.not_mem_nil, or_false] at hid
  rcases hid with rfl | rfl
  · exact absurd hlt (by decide)
  · exact absurd hlt (by decide)

end Fix8.Codec
