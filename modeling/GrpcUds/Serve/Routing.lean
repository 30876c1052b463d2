import GrpcUds.Serve.Wakeup
import GrpcUds.Server.Refinement

/-!
# Ops reach the call they were queued for

The ops that were pushed are, in the order of their pushes, those that the loop
has processed, those of the batch in hand and those still queued.  Tokens are
handed out once, so the live connection that an op's token finds is the one
whose dispatch made the op's writer.
-/

namespace GrpcUds.Serve

open Transition Server

/-- The ops that were taken and are still to be applied. -/
def Phase.batch : Phase → List OutOp
  | apply batch => batch
  | _ => []

namespace Writer

/-- Flags are only ever raised. -/
structure Grows (writer later : Writer) : Prop where
  token : later.token = writer.token
  callId : later.callId = writer.callId
  origin : later.origin = writer.origin
  finished : writer.finished = true → later.finished = true
  dead : writer.dead = true → later.dead = true
  overflow : writer.overflow = true → later.overflow = true

theorem Grows.refl (writer : Writer) : writer.Grows writer :=
  ⟨rfl, rfl, rfl, id, id, id⟩

/-- The flags with which the loop reports what became of an op. -/
def Reports (writer : Writer) : Outcome → Prop
  | .unrouted => writer.dead = true
  | .applied connection _ result =>
      connection = writer.origin ∧
        (result = .error .queueFull → writer.overflow = true) ∧
        ∀ error, result = .error error → error ≠ .queueFull → writer.dead = true

theorem Reports.grow {writer later : Writer} {outcome : Outcome} (reports : writer.Reports outcome)
    (grows : writer.Grows later) : later.Reports outcome := by
  cases outcome with
  | unrouted => exact grows.dead reports
  | applied connection policy result =>
      obtain ⟨origin, full, failed⟩ := reports
      exact ⟨origin.trans grows.origin.symm, fun isFull => grows.overflow (full isFull),
        fun error isError other => grows.dead (failed error isError other)⟩

end Writer

/-- Every writer is still there, with its flags at least as raised. -/
def GrowAll (writers later : List Writer) : Prop :=
  ∀ (index : Nat) (writer : Writer), writers[index]? = some writer →
    ∃ grown, later[index]? = some grown ∧ writer.Grows grown

theorem GrowAll.refl (writers : List Writer) : GrowAll writers writers :=
  fun _ writer known => ⟨writer, known, .refl writer⟩

theorem growAll_modify (writers : List Writer) (index : Nat) {change : Writer → Writer}
    (grows : ∀ writer : Writer, writer.Grows (change writer)) :
    GrowAll writers (writers.modify index change) := by
  intro other writer known
  rw [List.getElem?_modify, known]
  by_cases same : index = other
  · exact ⟨change writer, by simp [same], grows writer⟩
  · exact ⟨writer, by simp [same], .refl writer⟩

theorem growAll_append (writers more : List Writer) : GrowAll writers (writers ++ more) :=
  fun index writer known => ⟨writer, by
    rw [List.getElem?_append_left (List.getElem?_eq_some_iff.mp known).1, known], .refl writer⟩

/-! ### Ops -/

/-- The op carries the address of its writer. -/
def Addressed (writers : List Writer) (op : OutOp) : Prop :=
  ∃ writer, writers[op.writer]? = some writer ∧ op.token = writer.token ∧
    op.callId = writer.callId

theorem Addressed.grow {writers later : List Writer} {op : OutOp}
    (addressed : Addressed writers op) (grow : GrowAll writers later) : Addressed later op := by
  obtain ⟨writer, known, token, callId⟩ := addressed
  obtain ⟨grown, present, grows⟩ := grow op.writer writer known
  exact ⟨grown, present, token.trans grows.token.symm, callId.trans grows.callId.symm⟩

variable {mailbox : Mailbox} {position : Nat}

namespace Mailbox

/-- A step of a call raises flags, or it pushes one op. -/
theorem advance_ops {next : Mailbox} (advanced : mailbox.advance position = some next) :
    (next.ops = mailbox.ops ∧ next.pushed = mailbox.pushed ∧
      GrowAll mailbox.writers next.writers ∧ next.writers.length = mailbox.writers.length) ∨
    ∃ op, next.ops = mailbox.ops ++ [op] ∧ next.pushed = mailbox.pushed ++ [op] ∧
      next.writers = mailbox.writers ∧ op.serial = mailbox.pushed.length ∧
      Addressed mailbox.writers op := by
  obtain ⟨call, writer, present, known, turn⟩ := advance_turn advanced
  have swap : ∀ writer : Writer, writer.Grows { writer with finished := true } :=
    fun _ => ⟨rfl, rfl, rfl, fun _ => rfl, id, id⟩
  cases turn with
  | wonSwap stage unfinished =>
      exact .inl ⟨rfl, rfl, growAll_modify mailbox.writers call.writer swap,
        List.length_modify _ _ _⟩
  | pushedFirst stage empty offThread =>
      exact .inr ⟨mailbox.opOf call writer, rfl, rfl, rfl, rfl, writer, known, rfl, rfl⟩
  | pushed stage covered =>
      exact .inr ⟨mailbox.opOf call writer, rfl, rfl, rfl, rfl, writer, known, rfl, rfl⟩
  | sawFinished stage finished => exact .inl ⟨rfl, rfl, .refl _, rfl⟩
  | sawUnfinished stage unfinished => exact .inl ⟨rfl, rfl, .refl _, rfl⟩
  | sawDead stage dead => exact .inl ⟨rfl, rfl, .refl _, rfl⟩
  | sawAlive stage alive => exact .inl ⟨rfl, rfl, .refl _, rfl⟩
  | lostSwap stage finished => exact .inl ⟨rfl, rfl, .refl _, rfl⟩
  | poked stage => exact .inl ⟨rfl, rfl, .refl _, rfl⟩

theorem begin_ops {next : Mailbox} {writer : Nat} {request : Request} {inline : Bool}
    (entered : mailbox.begin writer request inline = some next) :
    next.ops = mailbox.ops ∧ next.pushed = mailbox.pushed ∧ next.writers = mailbox.writers := by
  unfold begin at entered
  split at entered
  · obtain rfl := Option.some.inj entered
    exact ⟨rfl, rfl, rfl⟩
  · simp at entered

end Mailbox

namespace Loop

/-- Tokens and numbers of the connections. -/
def names (loop : Loop) : List (Nat × Nat) :=
  loop.conns.map fun slot => (slot.token, slot.serial)

/-- Tokens are handed out once: a connection and a writer agree on their token
exactly when the writer was made by a dispatch of the connection. -/
structure Named (names : List (Nat × Nat)) (nextToken accepted : Nat) (writers : List Writer) :
    Prop where
  slots : ∀ name ∈ names, name.1 < nextToken ∧ name.2 < accepted
  made : ∀ writer ∈ writers, writer.token < nextToken ∧ writer.origin < accepted
  agree : ∀ writer ∈ writers, ∀ name ∈ names, name.1 = writer.token ↔ name.2 = writer.origin
  tokens : (names.map Prod.fst).Nodup
  serials : (names.map Prod.snd).Nodup

namespace Named

variable {names : List (Nat × Nat)} {nextToken accepted : Nat} {writers later : List Writer}

variable (named : Named names nextToken accepted writers)
include named

theorem sublist {fewer : List (Nat × Nat)} (sublist : fewer.Sublist names) :
    Named fewer nextToken accepted writers where
  slots := fun name member => named.slots name (sublist.subset member)
  made := named.made
  agree := fun writer known name member => named.agree writer known name (sublist.subset member)
  tokens := named.tokens.sublist (sublist.map _)
  serials := named.serials.sublist (sublist.map _)

theorem grow (grow : GrowAll writers later) (length : later.length = writers.length) :
    Named names nextToken accepted later := by
  have twin : ∀ writer ∈ later, ∃ old ∈ writers, old.token = writer.token ∧
      old.origin = writer.origin := by
    intro writer member
    obtain ⟨index, inside, rfl⟩ := List.getElem_of_mem member
    have known : writers[index]? = some writers[index] := List.getElem?_eq_getElem (length ▸ inside)
    obtain ⟨grown, present, grows⟩ := grow index _ known
    rw [List.getElem?_eq_getElem inside] at present
    obtain rfl := Option.some.inj present
    exact ⟨_, List.mem_of_getElem? known, grows.token.symm, grows.origin.symm⟩
  refine ⟨named.slots, fun writer member => ?_, fun writer member => ?_, named.tokens,
    named.serials⟩
  · obtain ⟨old, known, token, origin⟩ := twin writer member
    exact token ▸ origin ▸ named.made old known
  · obtain ⟨old, known, token, origin⟩ := twin writer member
    exact token ▸ origin ▸ named.agree old known

theorem accept :
    Named (names ++ [(nextToken, accepted)]) (nextToken + 1) (accepted + 1) writers where
  slots := by
    intro name member
    rcases Table.mem_concat.mp member with old | rfl
    · have bounds := named.slots name old
      omega
    · simp
  made := by
    intro writer known
    have bounds := named.made writer known
    omega
  agree := by
    intro writer known name member
    rcases Table.mem_concat.mp member with old | rfl
    · exact named.agree writer known name old
    · have bounds := named.made writer known
      dsimp only
      omega
  tokens := by
    rw [List.map_append, List.nodup_append]
    refine ⟨named.tokens, by simp, fun token member last isLast => ?_⟩
    obtain ⟨name, listed, rfl⟩ := List.mem_map.mp member
    have bounds := named.slots name listed
    rw [show last = nextToken by simpa using isLast]
    omega
  serials := by
    rw [List.map_append, List.nodup_append]
    refine ⟨named.serials, by simp, fun serial member last isLast => ?_⟩
    obtain ⟨name, listed, rfl⟩ := List.mem_map.mp member
    have bounds := named.slots name listed
    rw [show last = accepted by simpa using isLast]
    omega

theorem refuse :
    Named names nextToken (accepted + 1) writers where
  slots := fun name member =>
    ⟨(named.slots name member).1, Nat.lt_succ_of_lt (named.slots name member).2⟩
  made := fun writer known =>
    ⟨(named.made writer known).1, Nat.lt_succ_of_lt (named.made writer known).2⟩
  agree := named.agree
  tokens := named.tokens
  serials := named.serials

/-- Dispatch on a connection makes writers with its token. -/
theorem dispatch {name : Nat × Nat} (listed : name ∈ names) {more : List Writer}
    (made : ∀ writer ∈ more, writer.token = name.1 ∧ writer.origin = name.2) :
    Named names nextToken accepted (writers ++ more) where
  slots := named.slots
  made := by
    intro writer member
    rcases List.mem_append.mp member with old | new
    · exact named.made writer old
    · obtain ⟨token, origin⟩ := made writer new
      exact token ▸ origin ▸ named.slots name listed
  agree := by
    intro writer member other present
    rcases List.mem_append.mp member with old | new
    · exact named.agree writer old other present
    · obtain ⟨token, origin⟩ := made writer new
      rw [token, origin]
      constructor
      · intro same
        rw [List.inj_on_of_nodup_map named.tokens present listed same]
      · intro same
        rw [List.inj_on_of_nodup_map named.serials present listed same]
  tokens := named.tokens
  serials := named.serials

end Named

theorem conclude_phase (loop : Loop) (position : Nat) (live : Bool) :
    (loop.conclude position live).phase = loop.phase := by
  unfold conclude
  split <;> rfl

/-- What holds of every reachable state. -/
structure Routed (loop : Loop) : Prop where
  order : loop.processed.map Processed.op ++ loop.phase.batch ++ loop.mailbox.ops =
    loop.mailbox.pushed
  numbered : loop.mailbox.pushed.map OutOp.serial = List.range loop.mailbox.pushed.length
  addressed : ∀ op ∈ loop.mailbox.pushed, Addressed loop.mailbox.writers op
  named : Named loop.names loop.nextToken loop.accepted loop.mailbox.writers
  current : ∀ position count, loop.phase = .inTick position count →
    ∃ slot, loop.conns[position]? = some slot ∧ slot.token = loop.currentToken
  reported : ∀ entry ∈ loop.processed, ∃ writer,
    loop.mailbox.writers[entry.op.writer]? = some writer ∧ writer.Reports entry.outcome

namespace Routed

variable {loop : Loop}

theorem new (methods : List MethodEntry) (maxMessageLen : UInt32) :
    Routed (new methods maxMessageLen) where
  order := rfl
  numbered := rfl
  addressed := fun op member => absurd member List.not_mem_nil
  named := by
    refine ⟨?_, ?_, ?_, ?_, ?_⟩ <;> simp [names, Loop.new, Mailbox.new]
  current := fun position count phase => by simp [Loop.new] at phase
  reported := fun entry member => absurd member List.not_mem_nil

variable (routed : loop.Routed)
include routed

/-- An op that is about to be applied was pushed. -/
theorem mem_pushed {op : OutOp} {batch : List OutOp} (phase : loop.phase = .apply (op :: batch)) :
    op ∈ loop.mailbox.pushed := by
  rw [← routed.order, phase]
  simp [Phase.batch]

/-- The loop moves on to a phase outside the ticks. -/
theorem move {phase : Phase} (batch : phase.batch = loop.phase.batch)
    (outside : ∀ position count, phase ≠ .inTick position count) :
    Routed { loop with phase := phase } :=
  { routed with
    order := batch ▸ routed.order
    current := fun position count inside => absurd inside (outside position count) }

/-- A step of the mailbox that pushes nothing. -/
theorem raise (ops : mailbox.ops = loop.mailbox.ops) (pushed : mailbox.pushed = loop.mailbox.pushed)
    (grow : GrowAll loop.mailbox.writers mailbox.writers)
    (length : mailbox.writers.length = loop.mailbox.writers.length) :
    Routed { loop with mailbox := mailbox } where
  order := by rw [ops, pushed, routed.order]
  numbered := pushed ▸ routed.numbered
  addressed := fun op member => (routed.addressed op (pushed ▸ member)).grow grow
  named := routed.named.grow grow length
  current := routed.current
  reported := by
    intro entry member
    obtain ⟨writer, known, reports⟩ := routed.reported entry member
    obtain ⟨grown, present, grows⟩ := grow entry.op.writer writer known
    exact ⟨grown, present, reports.grow grows⟩

theorem push {op : OutOp} (ops : mailbox.ops = loop.mailbox.ops ++ [op])
    (pushed : mailbox.pushed = loop.mailbox.pushed ++ [op])
    (writers : mailbox.writers = loop.mailbox.writers)
    (serial : op.serial = loop.mailbox.pushed.length)
    (addressed : Addressed loop.mailbox.writers op) : Routed { loop with mailbox := mailbox } where
  order := by rw [ops, pushed, ← routed.order, List.append_assoc _ loop.mailbox.ops]
  numbered := by
    rw [pushed, List.map_append, routed.numbered, List.length_append, List.map_singleton, serial]
    exact List.range_succ.symm
  addressed := by
    intro other member
    rw [writers]
    rcases List.mem_append.mp (pushed ▸ member) with old | new
    · exact routed.addressed other old
    · exact List.mem_singleton.mp new ▸ addressed
  named := writers ▸ routed.named
  current := routed.current
  reported := writers ▸ routed.reported

/-- A connection changes under its name. -/
theorem modifyConn (position : Nat) {change : ConnSlot → ConnSlot}
    (token : ∀ slot, (change slot).token = slot.token)
    (serial : ∀ slot, (change slot).serial = slot.serial) :
    Routed (loop.modifyConn position change) where
  order := routed.order
  numbered := routed.numbered
  addressed := routed.addressed
  named := by
    have kept : (loop.modifyConn position change).names = loop.names :=
      Table.map_modify_of_kept (fun slot => by rw [token, serial]) loop.conns position
    rw [kept]
    exact routed.named
  current := by
    intro index count phase
    obtain ⟨slot, present, same⟩ := routed.current index count phase
    refine ⟨if position = index then change slot else slot, ?_, ?_⟩
    · simp only [Loop.modifyConn, List.getElem?_modify, present]
      split <;> rfl
    · split
      · exact (token slot).trans same
      · exact same
  reported := routed.reported

theorem conclude (position : Nat) (live : Bool) :
    Routed (loop.conclude position live) := by
  unfold Loop.conclude
  split
  · exact routed
  · exact routed.modifyConn position (fun _ => rfl) fun _ => rfl

theorem accept (registered : Bool) (fd : Int) :
    Routed (loop.accept registered fd) := by
  unfold Loop.accept
  split
  · refine { routed with named := ?_, current := fun position count phase => ?_ }
    · rw [names, List.map_append]
      exact routed.named.accept
    · obtain ⟨slot, present, same⟩ := routed.current position count phase
      refine ⟨slot, ?_, same⟩
      rw [List.getElem?_append_left (List.getElem?_eq_some_iff.mp present).1, present]
  · exact { routed with named := routed.named.refuse }

theorem enlist {name : Nat × Nat} (listed : name ∈ loop.names) {more : List Writer}
    (made : ∀ writer ∈ more, writer.token = name.1 ∧ writer.origin = name.2) :
    Routed { loop with
      mailbox := { loop.mailbox with writers := loop.mailbox.writers ++ more } } where
  order := routed.order
  numbered := routed.numbered
  addressed := fun op member => (routed.addressed op member).grow (growAll_append _ _)
  named := routed.named.dispatch listed made
  current := routed.current
  reported := by
    intro entry member
    obtain ⟨writer, known, reports⟩ := routed.reported entry member
    obtain ⟨grown, present, grows⟩ := growAll_append _ more entry.op.writer writer known
    exact ⟨grown, present, reports.grow grows⟩

/-- The writers that a pass makes carry the name of the connection that is ticked. -/
theorem dispatch {count : Nat} {slot : ConnSlot} (phase : loop.phase = .inTick position count)
    (present : loop.conns[position]? = some slot) (submitRc : Nat → Int) :
    Routed (loop.dispatch position slot submitRc) := by
  have token : slot.token = loop.currentToken := by
    obtain ⟨ticked, found, same⟩ := routed.current position count phase
    obtain rfl := Option.some.inj (present.symm.trans found)
    exact same
  have listed : (slot.token, slot.serial) ∈ loop.names :=
    List.mem_map_of_mem (List.mem_of_getElem? present)
  have made : ∀ writer ∈ (invokedIds ((slot.conn.dispatch (trampolines submitRc)).2.log.drop
      slot.conn.log.length)).map (loop.writerFor slot),
      writer.token = slot.token ∧ writer.origin = slot.serial := by
    intro writer member
    obtain ⟨id, _, rfl⟩ := List.mem_map.mp member
    exact ⟨token.symm, rfl⟩
  exact (routed.enlist listed made).modifyConn position (fun _ => rfl) fun _ => rfl

/-- The connection that an op is routed to is the one that its writer was made on. -/
theorem route {op : OutOp} {writer : Writer} {slot : ConnSlot}
    (known : loop.mailbox.writers[op.writer]? = some writer) (token : op.token = writer.token)
    (found : loop.route op = some position) (present : loop.conns[position]? = some slot) :
    slot.serial = writer.origin := by
  have matched : slot.token = op.token := by
    obtain ⟨inside, accepted, _⟩ := List.findIdx?_eq_some_iff_getElem.mp found
    rw [List.getElem?_eq_getElem inside] at present
    obtain rfl := Option.some.inj present
    simp at accepted
    exact accepted.1
  have listed : (slot.token, slot.serial) ∈ loop.names :=
    List.mem_map_of_mem (List.mem_of_getElem? present)
  exact (routed.named.agree writer (List.mem_of_getElem? known) _ listed).mp
    (matched.trans token)

/-- The first op of the batch is done with. -/
theorem process {op : OutOp} {batch : List OutOp} (phase : loop.phase = .apply (op :: batch))
    {outcome : Outcome} (ops : mailbox.ops = loop.mailbox.ops)
    (pushed : mailbox.pushed = loop.mailbox.pushed)
    (grow : GrowAll loop.mailbox.writers mailbox.writers)
    (length : mailbox.writers.length = loop.mailbox.writers.length)
    (reports : ∃ writer, mailbox.writers[op.writer]? = some writer ∧ writer.Reports outcome) :
    Routed { loop with
      mailbox := mailbox
      processed := loop.processed ++ [⟨op, outcome⟩]
      phase := .apply batch } :=
  { routed.raise ops pushed grow length with
    order := by
      have order := routed.order
      rw [phase] at order
      simpa [Phase.batch, ops, pushed] using order
    current := fun position count inside => by simp at inside
    reported := by
      intro entry member
      rcases Table.mem_concat.mp member with old | rfl
      · exact (routed.raise ops pushed grow length).reported entry old
      · exact reports }

end Routed

theorem grows_dead (writer : Writer) : writer.Grows { writer with dead := true } :=
  ⟨rfl, rfl, rfl, id, fun _ => rfl, id⟩

theorem grows_overflow (writer : Writer) : writer.Grows { writer with overflow := true } :=
  ⟨rfl, rfl, rfl, id, id, fun _ => rfl⟩

/-- `report` raises the flag that answers for the result. -/
theorem report_writers (mailbox : Mailbox) (index : Nat) (result : Except ConnError Unit) :
    ∃ change : Writer → Writer,
      report mailbox index result = mailbox.modifyWriter index change ∧
      (∀ writer : Writer, writer.Grows (change writer)) ∧
      ∀ (writer : Writer) policy,
        (change writer).Reports (.applied writer.origin policy result) := by
  unfold report
  split
  · refine ⟨id, ?_, Writer.Grows.refl, fun writer policy => ⟨rfl, by simp, by simp⟩⟩
    simp [Mailbox.modifyWriter]
  · exact ⟨_, rfl, grows_overflow, fun writer policy => ⟨rfl, fun _ => rfl, by simp⟩⟩
  next error other =>
    refine ⟨_, rfl, grows_dead, fun writer policy => ⟨rfl, fun full => ?_, fun _ _ _ => rfl⟩⟩
    exact absurd (Except.error.inj full) other

theorem Routed.applyOp {loop : Loop} (routed : loop.Routed) {op : OutOp} {batch : List OutOp}
    (phase : loop.phase = .apply (op :: batch)) (reserve : Bool) :
    Routed { loop.applyOp op reserve with phase := .apply batch } := by
  have taken := routed.mem_pushed phase
  obtain ⟨writer, known, token, callId⟩ := routed.addressed op taken
  have reportsWith : ∀ {change : Writer → Writer} {outcome : Outcome},
      (change writer).Reports outcome →
      ∃ reported, (loop.mailbox.writers.modify op.writer change)[op.writer]? = some reported ∧
        reported.Reports outcome := by
    intro change outcome reports
    exact ⟨change writer, by rw [List.getElem?_modify, known]; simp, reports⟩
  unfold Loop.applyOp
  split
  · exact routed.process phase rfl rfl (growAll_modify _ _ grows_dead) (List.length_modify _ _ _)
      (reportsWith rfl)
  next position slot routing =>
    obtain ⟨index, found, paired⟩ := Option.bind_eq_some_iff.mp routing
    obtain ⟨present, rfl⟩ : loop.conns[index]? = some slot ∧ index = position := by
      obtain ⟨other, present, equal⟩ := Option.map_eq_some_iff.mp paired
      cases equal
      exact ⟨present, rfl⟩
    have origin := routed.route known token found present
    obtain ⟨change, changed, grows, reports⟩ :=
      report_writers loop.mailbox op.writer (slot.conn.api (op.apiCall reserve)).1
    dsimp only
    rw [changed, origin]
    have kept : (loop.mailbox.modifyWriter op.writer change).ops = loop.mailbox.ops := rfl
    exact (routed.process phase kept rfl (growAll_modify _ _ grows) (List.length_modify _ _ _)
      (reportsWith (reports writer _))).modifyConn index (fun _ => rfl) fun _ => rfl

theorem step_routed {loop next : Loop} {event : LoopEvent} (routed : loop.Routed)
    (performed : loop.step event = some next) : next.Routed := by
  cases step_inv performed with
  | begin entered inTick =>
      obtain ⟨ops, pushed, writers⟩ := Mailbox.begin_ops entered
      exact routed.raise ops pushed (writers ▸ .refl _) (congrArg _ writers)
  | advance advanced =>
      rcases Mailbox.advance_ops advanced with ⟨ops, pushed, grow, length⟩ |
        ⟨op, ops, pushed, writers, serial, addressed⟩
      · exact routed.raise ops pushed grow length
      · exact routed.push ops pushed writers serial addressed
  | shutdown phase => exact routed.move (by simp [phase, Phase.batch]) (by simp)
  | enterPoll phase => exact routed.move (by simp [phase, Phase.batch]) (by simp)
  | interrupted phase => exact routed.move (by simp [phase, Phase.batch]) (by simp)
  | pollFailed phase => exact routed.move (by simp [phase, Phase.batch]) (by simp)
  | pollAccepts phase => exact routed.move (by simp [phase, Phase.batch]) (by simp)
  | pollReturned phase =>
      refine routed.move ?_ fun position count => ?_
      · split <;> simp [phase, Phase.batch]
      · split <;> simp
  | accept phase => exact routed.accept _ _
  | acceptDone phase =>
      refine routed.move ?_ fun position count => ?_
      · split <;> simp [phase, Phase.batch]
      · split <;> simp
  | wakeupDrained phase drained => exact routed.move (by simp [phase, Phase.batch]) (by simp)
  | wakeupRead phase => exact routed.raise rfl rfl (.refl _) rfl
  | skip phase => exact routed.move (by simp [phase, Phase.batch]) (by simp)
  | @tickStart position count slot phase present =>
      refine { routed with order := ?_, current := fun index polled inside => ?_ }
      · have order := routed.order
        rw [phase] at order
        exact order
      · cases inside
        exact ⟨slot, present, rfl⟩
  | conn phase present allowed stepped =>
      exact routed.modifyConn _ (fun _ => rfl) fun _ => rfl
  | dispatch phase present => exact routed.dispatch phase present _
  | tickEnd phase quiet =>
      refine (routed.conclude _ _).move ?_ (by simp)
      rw [conclude_phase, phase]
      rfl
  | take phase =>
      refine { routed with order := ?_, current := fun index polled inside => by simp at inside }
      have order := routed.order
      rw [phase] at order
      simpa [Phase.batch, Mailbox.take] using order
  | applyOp phase => exact routed.applyOp phase _
  | applyDone phase => exact routed.move (by simp [phase, Phase.batch]) (by simp)
  | flushSkip phase => exact routed.move (by simp [phase, Phase.batch]) (by simp)
  | flushStart phase present live => exact routed.move (by simp [phase, Phase.batch]) (by simp)
  | flushEnd phase =>
      refine (routed.conclude _ _).move ?_ (by simp)
      rw [conclude_phase, phase]
      rfl
  | retain phase =>
      refine { routed with
        order := ?_
        named := ?_
        current := fun _ _ inside => by simp at inside }
      · have order := routed.order
        rw [phase] at order
        exact order
      · exact routed.named.sublist (List.filter_sublist.map _)

/-- Only the connection that the writer was made on is touched. -/
theorem Routed.applyOp_elsewhere {loop : Loop} (routed : loop.Routed) {op : OutOp} {writer : Writer}
    (known : loop.mailbox.writers[op.writer]? = some writer) (token : op.token = writer.token)
    (reserve : Bool) {slot : ConnSlot} (present : loop.conns[position]? = some slot)
    (elsewhere : slot.serial ≠ writer.origin) :
    (loop.applyOp op reserve).conns[position]? = some slot := by
  unfold Loop.applyOp
  split
  · exact present
  next index target routing =>
    obtain ⟨index', found, paired⟩ := Option.bind_eq_some_iff.mp routing
    obtain ⟨other, listed, equal⟩ := Option.map_eq_some_iff.mp paired
    cases equal
    have apart : index ≠ position := by
      rintro rfl
      obtain rfl := Option.some.inj (present.symm.trans listed)
      exact elsewhere (routed.route known token found present)
    simp [Loop.modifyConn, apart, present]

theorem callId_apiCall (op : OutOp) (reserve : Bool) :
    (op.apiCall reserve).callId = op.callId := by
  unfold OutOp.apiCall
  split <;> rfl

/-- Of a connection at most the stream of the op's call is touched. -/
theorem applyOp_other_streams (loop : Loop) (op : OutOp) (reserve : Bool) {slot : ConnSlot}
    (present : loop.conns[position]? = some slot) :
    ∃ later, (loop.applyOp op reserve).conns[position]? = some later ∧
      ∀ id, id ≠ op.callId → later.conn.findStream id = slot.conn.findStream id := by
  unfold Loop.applyOp
  split
  · exact ⟨slot, present, fun _ _ => rfl⟩
  next index target routing =>
    obtain ⟨_, _, paired⟩ := Option.bind_eq_some_iff.mp routing
    obtain ⟨_, listed, equal⟩ := Option.map_eq_some_iff.mp paired
    cases equal
    by_cases same : index = position
    · subst same
      obtain rfl := Option.some.inj (present.symm.trans listed)
      refine ⟨{ slot with conn := (slot.conn.api (op.apiCall reserve)).2 }, ?_, ?_⟩
      · simp [Loop.modifyConn, present]
      · intro id other
        rw [(slot.conn.api_touches _).findStream, callId_apiCall, if_neg other.symm]
    · exact ⟨slot, by simp [Loop.modifyConn, same, present], fun _ _ => rfl⟩

/-- In every reachable state the processed ops are, in order, the first of those
that were pushed, so that none is applied twice and those of one writer keep
their order.  Each was applied on the connection and the stream of its writer or
left a flag of the writer raised, and the op that is next touches no connection
but that of its writer, and there no stream but that of its call. -/
theorem ops_reach_their_call {methods : List MethodEntry} {maxMessageLen : UInt32}
    {events : List LoopEvent} {loop : Loop}
    (reached : run step (new methods maxMessageLen) events = some loop) :
    loop.processed.map Processed.op <+: loop.mailbox.pushed ∧
      (loop.processed.map fun entry => entry.op.serial).Nodup ∧
      (∀ index, (loop.processed.map Processed.op).filter (fun op => op.writer = index) <+:
        loop.mailbox.pushed.filter fun op => op.writer = index) ∧
      (∀ entry ∈ loop.processed, ∃ writer,
        loop.mailbox.writers[entry.op.writer]? = some writer ∧
          entry.op.callId = writer.callId ∧ writer.Reports entry.outcome) ∧
      ∀ op batch reserve, loop.phase = .apply (op :: batch) → ∃ writer,
        loop.mailbox.writers[op.writer]? = some writer ∧ op.callId = writer.callId ∧
          ∀ (position : Nat) (slot : ConnSlot), loop.conns[position]? = some slot →
            (slot.serial ≠ writer.origin →
              (loop.applyOp op reserve).conns[position]? = some slot) ∧
            ∃ later, (loop.applyOp op reserve).conns[position]? = some later ∧
              ∀ id, id ≠ writer.callId → later.conn.findStream id = slot.conn.findStream id := by
  have routed : loop.Routed :=
    run_invariant (fun loop event next routed performed => step_routed routed performed)
      (Routed.new methods maxMessageLen) reached
  have leading : loop.processed.map Processed.op <+: loop.mailbox.pushed :=
    ⟨loop.phase.batch ++ loop.mailbox.ops, by rw [← List.append_assoc, routed.order]⟩
  refine ⟨leading, ?_, fun index => leading.filter _, fun entry member => ?_,
    fun op batch reserve phase => ?_⟩
  · have serials : (loop.processed.map fun entry => entry.op.serial) <+:
        List.range loop.mailbox.pushed.length := by
      simpa [Function.comp_def, routed.numbered] using leading.map OutOp.serial
    exact List.nodup_range.sublist serials.sublist
  · obtain ⟨writer, known, reports⟩ := routed.reported entry member
    obtain ⟨same, found, _, callId⟩ :=
      routed.addressed entry.op (leading.subset (List.mem_map_of_mem member))
    obtain rfl := Option.some.inj (known.symm.trans found)
    exact ⟨writer, known, callId, reports⟩
  · have taken := routed.mem_pushed phase
    obtain ⟨writer, known, token, callId⟩ := routed.addressed op taken
    refine ⟨writer, known, callId, fun position slot present => ⟨fun elsewhere => ?_, ?_⟩⟩
    · exact routed.applyOp_elsewhere known token reserve present elsewhere
    · rw [← callId]
      exact loop.applyOp_other_streams op reserve present

/-- A write that is applied, and one whose connection dies before it is. -/
def writtenThenUnrouted : List LoopEvent := openCall ++
  [.begin 0 (.write [5]) false, .advance 0, .advance 0, .advance 0, .advance 0,
    .pollReturned false, .readWakeup, .readWakeup, .skip, .take, .applyOp true, .applyDone,
    .flushSkip, .retain, .enterPoll,
    .begin 0 (.write [6]) false, .advance 0, .advance 0, .advance 0, .advance 0,
    .pollReturned false, .readWakeup, .readWakeup, .tickStart, .tickEnd false, .take,
    .applyOp true]

theorem written_and_unrouted_ops :
    ∃ loop, run step oneMethod writtenThenUnrouted = some loop ∧
      loop.processed.map Processed.outcome =
        [.applied 0 (some .unbounded) (.ok ()), .unrouted] ∧
      loop.processed.map Processed.op <+: loop.mailbox.pushed := by
  have reached : run step oneMethod writtenThenUnrouted = some _ := rfl
  exact ⟨_, reached, rfl, (ops_reach_their_call reached).1⟩

end Loop

end GrpcUds.Serve
