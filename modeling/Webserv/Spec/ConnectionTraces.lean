import Webserv.Native.Connection
import Webserv.Spec.FutReadCorrect
import Webserv.Spec.FutWriteCorrect
import Webserv.Spec.FutureEmbedding
import Webserv.Spec.ReadFaults
import Webserv.Spec.ServerPipelineCorrect
import Webserv.Spec.TaskMeaning

/-!
# What is seen of a connection

The outcomes of the reads and writes of a connection, told apart by channel, and
what its futures deliver behind them.  The only effects of a future are the
faults of a parser.

## Key results

- `delivers_getRequest`, `blocks_getRequest`: the request follows from the reads of the client
- `delivers_send`, `blocks_send`: what is written is the beginning of the entity
- `delivers_exchange`, `blocks_exchange`: a request that is written and the answer to it
-/

namespace Webserv.Connection

open Config Futures Fut Http Transition

/-! ## What is seen of a channel -/

/-- What a handler was called with. -/
abbrev Seen : Type := Σ query : ConnectionQuery, connectionSignature.Answer query

def readOn (channel : Channel) : Seen → Option ReadEvent
  | ⟨.read channel', ev⟩ => if channel' = channel then some ev else none
  | ⟨.write _ _, _⟩ => none

def writeOn (channel : Channel) : Seen → Option (Σ offered : Bytes, WriteEvent offered)
  | ⟨.read _, _⟩ => none
  | ⟨.write channel' offered, ev⟩ => if channel' = channel then some ⟨offered, ev⟩ else none

/-- The outcomes of the reads. -/
def reads (channel : Channel) (seen : List Seen) : List ReadEvent := seen.filterMap (readOn channel)

def writes (channel : Channel) (seen : List Seen) : List (Σ offered : Bytes, WriteEvent offered) :=
  seen.filterMap (writeOn channel)

/-- The bytes that were accepted. -/
def wrote (channel : Channel) (seen : List Seen) : Bytes :=
  (writes channel seen).flatMap fun a => a.2.accepted

def failed : Except Io.Error ℕ → Option Io.Error
  | .error err => some err
  | .ok _ => none

/-- The error of a write that failed. -/
def writeError (channel : Channel) (seen : List Seen) : Option Io.Error :=
  (writes channel seen).findSome? fun a => failed a.2.result

section seen
variable {channel channel' : Channel} {seen seen' : List Seen}

/-- The reads of a connection that goes on. -/
@[simp] theorem reads_append : reads channel (seen ++ seen') = reads channel seen ++ reads channel seen' :=
  List.filterMap_append

/-- The writes of a connection that goes on. -/
@[simp] theorem writes_append :
    writes channel (seen ++ seen') = writes channel seen ++ writes channel seen' :=
  List.filterMap_append

/-- Without a write no byte is written. -/
theorem wrote_of_writes_nil (h : writes channel seen = []) : wrote channel seen = [] := by
  rw [wrote, h, List.flatMap_nil]

/-- The same is seen of a channel on which the same is written. -/
theorem wrote_congr (h : writes channel seen = writes channel seen') :
    wrote channel seen = wrote channel seen' := by
  rw [wrote, h, wrote]

/-- Whether a write failed depends on the writes. -/
theorem writeError_congr (h : writes channel seen = writes channel seen') :
    writeError channel seen = writeError channel seen' := by
  rw [writeError, h, writeError]

end seen

/-- Only this channel was used. -/
def OnlyOn (channel : Channel) (seen : List Seen) : Prop :=
  ∀ channel', channel' ≠ channel → reads channel' seen = [] ∧ writes channel' seen = []

/-- What is seen of reads. -/
def readsSeen (channel : Channel) (evs : List ReadEvent) : List Seen :=
  evs.map fun ev => ⟨.read channel, ev⟩

/-- What is seen of writes. -/
def writesSeen (channel : Channel) (evs : List (Σ offered : Bytes, WriteEvent offered)) : List Seen :=
  evs.map fun a => ⟨.write channel a.1, a.2⟩

/-- All of these bytes are read at once. -/
def readAll (channel : Channel) (part : Bytes) : Seen := ⟨.read channel, .toRead (.ok part)⟩

/-- A write that takes all it is offered. -/
def writeAll (channel : Channel) (offered : Bytes) : Seen :=
  ⟨.write channel offered, .toWrite (.ok (Fin.last _))⟩

section phases
variable {channel channel' : Channel} {evs : List ReadEvent}
  {wevs : List (Σ offered : Bytes, WriteEvent offered)}

/-- A phase that reads shows its reads, on its channel. -/
theorem reads_readsSeen : reads channel' (readsSeen channel evs) = if channel = channel' then evs else [] := by
  rw [reads, readsSeen, List.filterMap_map]
  split_ifs with h
  · rw [h]
    have hsome : (readOn channel' ∘ fun ev => ⟨.read channel', ev⟩) = some := by
      funext ev
      exact if_pos rfl
    rw [hsome, List.filterMap_some]
  · rw [List.filterMap_eq_nil_iff]
    exact fun ev _ => if_neg h

/-- It does not write. -/
theorem writes_readsSeen : writes channel' (readsSeen channel evs) = [] := by
  rw [writes, readsSeen, List.filterMap_map, List.filterMap_eq_nil_iff]
  exact fun ev _ => rfl

/-- A phase that writes does not read. -/
theorem reads_writesSeen : reads channel' (writesSeen channel wevs) = [] := by
  rw [reads, writesSeen, List.filterMap_map, List.filterMap_eq_nil_iff]
  exact fun ev _ => rfl

/-- It shows its writes, on its channel. -/
theorem writes_writesSeen :
    writes channel' (writesSeen channel wevs) = if channel = channel' then wevs else [] := by
  rw [writes, writesSeen, List.filterMap_map]
  split_ifs with h
  · rw [h]
    have hsome : (writeOn channel' ∘ fun a => ⟨.write channel' a.1, a.2⟩) = some := by
      funext ev
      exact if_pos rfl
    rw [hsome, List.filterMap_some]
  · rw [List.filterMap_eq_nil_iff]
    -- what is written on another channel is not one of these
    exact fun ev _ => if_neg h

end phases

/-! ## The templates -/

section templates
variable {creators : Creators}

/-- The request is read by the template. -/
theorem carries_readsRequest :
    readsRequest.Carries (readBodies creators.request) (bodies creators) := by
  intro t proc
  cases t with
  | part => exact nomatch proc
  | entity => rfl

/-- So is the response of a peer. -/
theorem carries_readsResponse (peer : Peer) :
    (readsResponse peer).Carries (readBodies creators.response) (bodies creators) := by
  intro t proc
  cases t with
  | part => exact nomatch proc
  | entity => rfl

/-- An entity is written by the template. -/
theorem carries_writesTo (channel : Channel) :
    (writesTo channel).Carries (writeBodies httpSerializer) (bodies creators) :=
  fun _ _ => rfl

/-- The answers are the reads on the client. -/
theorem answers_readsRequest (trace : Trace (readSignature RequestParser Request Http.Error)) :
    answers (readsRequest.trace trace) = readsSeen .client (readEvents trace) := by
  rw [Embedding.answers_trace, readsSeen, readEvents, List.map_map]
  rfl

/-- The answers are the reads on the peer. -/
theorem answers_readsResponse (peer : Peer)
    (trace : Trace (readSignature ResponseParser Response Http.Error)) :
    answers ((readsResponse peer).trace trace) = readsSeen (.peer peer) (readEvents trace) := by
  rw [Embedding.answers_trace, readsSeen, readEvents, List.map_map]
  rfl

/-- The answers are the writes on the channel. -/
theorem answers_writesTo (channel : Channel) (trace : Trace (writeSignature Serializer)) :
    answers ((writesTo channel).trace trace) = writesSeen channel (answers trace) := by
  rw [Embedding.answers_trace]
  rfl

variable {trace : Trace connectionSignature} {wait : Wait connectionSignature}

/-- What is done beside. -/
def effectsOf (trace : Trace connectionSignature) : List ConnectionEffect :=
  trace.filterMap Note.effect?

/-- The effects of a trace that goes on. -/
@[simp] theorem effectsOf_append (trace trace' : Trace connectionSignature) :
    effectsOf (trace ++ trace') = effectsOf trace ++ effectsOf trace' := List.filterMap_append

/-- The faults of the request's parser are seen. -/
theorem upToFault_readsRequest {trace : Trace (readSignature RequestParser Request Http.Error)}
    {evs : List ReadEvent}
    (h : (readLoop creators.request (.fresh requestFormat) evs).1 = trace) :
    UpToFault (readFault requestFormat (.fresh requestFormat) evs) []
      (effectsOf (readsRequest.trace trace)) := by
  rw [effectsOf, Embedding.effects_trace, ← h]
  exact upToFault_readLoop creators.isRequest (fun _ _ => rfl) (fun _ => rfl) _ evs

/-- Reading a response has no effect but a fault of the parser. -/
theorem upToFault_readsResponse {peer : Peer}
    {trace : Trace (readSignature ResponseParser Response Http.Error)} {evs : List ReadEvent}
    (h : (readLoop creators.response (.fresh responseFormat) evs).1 = trace) :
    UpToFault (readFault responseFormat (.fresh responseFormat) evs) []
      (effectsOf ((readsResponse peer).trace trace)) := by
  rw [effectsOf, Embedding.effects_trace, ← h]
  exact upToFault_readLoop creators.isResponse (fun _ _ => rfl) (fun _ => rfl) _ evs

/-- Behind these reads of the client the request is there. -/
theorem delivers_getRequest {value : Http.Result Request}
    (h : Delivers (bodies creators) (getRequest creators) trace value) : ∃ evs,
      answers trace = readsSeen .client evs ∧
      (readLoop creators.request (.fresh requestFormat) evs).2 = some value ∧
      UpToFault (readFault requestFormat (.fresh requestFormat) evs) [] (effectsOf trace) := by
  obtain ⟨trace, value, hdelivers, rfl, rfl⟩ := delivers_embed carries_readsRequest h
  have hloop := delivers_readEntity hdelivers
  exact ⟨_, answers_readsRequest trace, congrArg Prod.snd hloop,
    upToFault_readsRequest (congrArg Prod.fst hloop)⟩

/-- While the request is incomplete the client is read. -/
theorem blocks_getRequest (h : Blocks (bodies creators) (getRequest creators) trace wait) : ∃ evs,
    answers trace = readsSeen .client evs ∧ wait = .answer (.read .client) ∧
    (readLoop creators.request (.fresh requestFormat) evs).2 = none ∧
    UpToFault (readFault requestFormat (.fresh requestFormat) evs) [] (effectsOf trace) := by
  obtain ⟨trace, wait, hblocks, rfl, rfl⟩ := blocks_embed carries_readsRequest h
  have hloop := blocks_readEntity hblocks
  refine ⟨_, answers_readsRequest trace, ?_, congrArg Prod.snd hloop,
    upToFault_readsRequest (congrArg Prod.fst hloop)⟩
  -- a connection is given no contract
  cases wait with
  | answer query => rfl
  | value t contract => exact nomatch contract

/-- The response is what the loop returns. -/
theorem delivers_getResponse {peer : Peer} {value : Http.Result Response}
    (h : Delivers (bodies creators) (getResponse creators peer) trace value) : ∃ evs,
      answers trace = readsSeen (.peer peer) evs ∧
      (readLoop creators.response (.fresh responseFormat) evs).2 = some value ∧
      UpToFault (readFault responseFormat (.fresh responseFormat) evs) [] (effectsOf trace) := by
  obtain ⟨trace, value, hdelivers, rfl, rfl⟩ := delivers_embed (carries_readsResponse peer) h
  have hloop := delivers_readEntity hdelivers
  exact ⟨_, answers_readsResponse peer trace, congrArg Prod.snd hloop,
    upToFault_readsResponse (congrArg Prod.fst hloop)⟩

/-- While the response is incomplete the peer is read. -/
theorem blocks_getResponse {peer : Peer}
    (h : Blocks (bodies creators) (getResponse creators peer) trace wait) : ∃ evs,
      answers trace = readsSeen (.peer peer) evs ∧ wait = .answer (.read (.peer peer)) ∧
      (readLoop creators.response (.fresh responseFormat) evs).2 = none ∧
      UpToFault (readFault responseFormat (.fresh responseFormat) evs) [] (effectsOf trace) := by
  obtain ⟨trace, wait, hblocks, rfl, rfl⟩ := blocks_embed (carries_readsResponse peer) h
  have hloop := blocks_readEntity hblocks
  refine ⟨_, answers_readsResponse peer trace, ?_, congrArg Prod.snd hloop,
    upToFault_readsResponse (congrArg Prod.fst hloop)⟩
  -- the parsers attach to nothing that is set from outside
  cases wait with
  | answer query => rfl
  | value t contract => exact nomatch contract

/-- What is seen of a serializer that is written, or as much of it as was. -/
structure Sending (channel : Channel) (entity : Serializer) (seen : List Seen) : Prop where
  only : ∃ wevs, seen = writesSeen channel wevs
  begins : wrote channel seen <+: entity.bytes

/-- What is written is what was accepted. -/
theorem wrote_writesTo (channel : Channel) (trace : Trace (writeSignature Serializer)) :
    wrote channel (answers ((writesTo channel).trace trace)) = accepted trace := by
  rw [answers_writesTo, wrote, writes_writesSeen, if_pos rfl, accepted]

/-- The write error is the first of the results. -/
theorem writeError_writesTo (channel : Channel) (trace : Trace (writeSignature Serializer)) :
    writeError channel (answers ((writesTo channel).trace trace)) =
      (results trace).findSome? failed := by
  rw [answers_writesTo, writeError, writes_writesSeen, if_pos rfl, results, List.findSome?_map]
  rfl

/-- A serializer has no other effects. -/
theorem effectsOf_writesTo (channel : Channel) (trace : Trace (writeSignature Serializer)) :
    effectsOf ((writesTo channel).trace trace) = [] := by
  rw [effectsOf, Embedding.effects_trace, List.flatMap_eq_nil_iff]
  exact fun effect _ => rfl

/-- Counts are no failures. -/
theorem findSome?_failed_ok (cnts : List ℕ) : (cnts.map .ok).findSome? failed = none := by
  rw [List.findSome?_map, List.findSome?_eq_none_iff]
  exact fun cnt _ => rfl

variable {channel : Channel} {entity : Serializer}

/-- An entity is written whole, or a write failed. -/
theorem delivers_send {value : Except Io.Error Unit}
    (h : Delivers (bodies creators) (send channel entity) trace value) :
    effectsOf trace = [] ∧ Sending channel entity (answers trace) ∧
      ((value = .ok () ∧ wrote channel (answers trace) = entity.bytes ∧
          writeError channel (answers trace) = none) ∨
        ∃ err, value = .error err ∧ writeError channel (answers trace) = some err) := by
  obtain ⟨_, res, hentity, rfl, rfl⟩ := delivers_map.mp h
  obtain ⟨trace, res, hdelivers, rfl, rfl⟩ := delivers_embed (carries_writesTo channel) hentity
  rw [List.map_nil, List.append_nil, wrote_writesTo, writeError_writesTo]
  refine ⟨effectsOf_writesTo channel trace, ?_⟩
  -- all of it happens on the one channel
  have honly : ∃ wevs, answers ((writesTo channel).trace trace) = writesSeen channel wevs :=
    ⟨_, answers_writesTo channel trace⟩
  have hwrote := wrote_writesTo channel trace
  cases res with
  | ok n =>
    obtain ⟨cnts, hresults, haccepted, -⟩ :=
      delivers_writeEntity_ok (httpSerializer_yields entity) hdelivers
    rw [hresults, findSome?_failed_ok]
    refine ⟨⟨honly, ?_⟩, .inl ⟨rfl, haccepted, rfl⟩⟩
    rw [hwrote, haccepted]
    exact List.prefix_rfl
  | error err =>
    obtain ⟨cnts, hresults, hbegins⟩ :=
      delivers_writeEntity_error (httpSerializer_yields entity) hdelivers
    rw [hresults, List.findSome?_append, findSome?_failed_ok]
    refine ⟨⟨honly, ?_⟩, .inr ⟨err, rfl, rfl⟩⟩
    rw [hwrote]
    exact hbegins

/-- Before that no write has failed. -/
theorem blocks_send (h : Blocks (bodies creators) (send channel entity) trace wait) :
    effectsOf trace = [] ∧ Sending channel entity (answers trace) ∧ writeError channel (answers trace) = none ∧
      ∃ offered, wait = .answer (.write channel offered) := by
  obtain ⟨trace, wait, hblocks, rfl, rfl⟩ :=
    blocks_embed (carries_writesTo channel) (blocks_map.mp h)
  -- so far every write has accepted something, and one is offered the rest
  obtain ⟨cnts, offered, rest, hresults, rfl, hrest, -⟩ :=
    blocks_writeEntity (httpSerializer_yields entity) hblocks
  refine ⟨effectsOf_writesTo channel trace, ⟨⟨_, answers_writesTo channel trace⟩, ?_⟩, ?_, ?_⟩
  · rw [wrote_writesTo]
    exact ⟨_, (List.append_assoc _ _ _).symm.trans hrest⟩
  · rw [writeError_writesTo, hresults, findSome?_failed_ok]
  · exact ⟨offered, rfl⟩

end templates

/-! ## Well-formed expressions -/

/-- The calls that are free behind the futures of the recursive functions. -/
def connectionEnds : ∀ t : ConnectionTy, connectionSignature.Proc t → ℕ
  | _, .readRequest _ => 0
  | _, .readResponse _ _ => 0
  | _, .write _ proc => writeEnds () proc

/-- The expression comes to its next answer without free calls. -/
structure Plain {t : ConnectionTy} (e : Expr connectionSignature t) : Prop where
  takes : Takes 0 e
  pays : Pays connectionEnds 0 e 0

section plain
variable {s t : ConnectionTy}

/-- A value needs nothing. -/
theorem plain_fromVal (value : connectionSignature.Val t) : Plain (.fromVal value) :=
  ⟨.fromVal value, .fromVal value (Nat.le_refl 0)⟩

/-- `map` needs what its future does. -/
theorem Plain.map {future : Expr connectionSignature s} (h : Plain future)
    (func : connectionSignature.Val s → List ConnectionEffect × connectionSignature.Val t) :
    Plain (.map future func) :=
  ⟨.map _ h.takes, .map _ h.pays⟩

/-- `flatmap` needs what its futures do. -/
theorem Plain.flatmap {future : Expr connectionSignature s} (h : Plain future)
    {func : connectionSignature.Val s → Expr connectionSignature t}
    (hfunc : ∀ value, Plain (func value)) : Plain (.flatmap future func) :=
  ⟨.flatmap (add_zero 0).symm h.takes fun value => (hfunc value).takes,
    .flatmap h.pays fun value => (hfunc value).pays⟩

/-- An expression that is well-formed by itself. -/
theorem plain_embed {S : Signature} {φ : Embedding S connectionSignature}
    {ends : ∀ t : S.Ty, S.Proc t → ℕ}
    (hends : ∀ t proc, connectionEnds (φ.ty t) (φ.proc t proc) = ends t proc) {t : S.Ty}
    {e : Expr S t} (htakes : Takes 0 e) (hpays : Pays ends 0 e 0) : Plain (e.embed φ) :=
  ⟨htakes.embed, hpays.embed hends⟩

/-- The calls of the template are paid for as before. -/
theorem ends_readsRequest : ∀ t proc,
    connectionEnds (readsRequest.ty t) (readsRequest.proc t proc) = readEnds t proc
  | .part, proc => nomatch proc
  | .entity, _ => rfl

/-- So are those for a response. -/
theorem ends_readsResponse (peer : Peer) : ∀ t proc,
    connectionEnds ((readsResponse peer).ty t) ((readsResponse peer).proc t proc) = readEnds t proc
  | .part, proc => nomatch proc
  | .entity, _ => rfl

variable {creators : Creators}

/-- Reading a request needs nothing from outside. -/
theorem plain_readsRequest (creator : RequestParser) :
    Plain ((readEntity creators.request creator).embed readsRequest) :=
  plain_embed ends_readsRequest (takes_readEntity creator) (pays_readEntity creator)

/-- Nor does reading a response. -/
theorem plain_readsResponse (peer : Peer) (creator : ResponseParser) :
    Plain ((readEntity creators.response creator).embed (readsResponse peer)) :=
  plain_embed (ends_readsResponse peer) (takes_readEntity creator) (pays_readEntity creator)

/-- Nor does writing. -/
theorem plain_send (channel : Channel) (entity : Serializer) : Plain (send channel entity) := by
  have hentity : Plain ((Fut.writeEntity serializer entity 0).embed (writesTo channel)) :=
    plain_embed (fun _ _ => rfl) (takes_writeEntity entity 0) (pays_writeEntity entity 0)
  exact hentity.map _

/-- Every function waits before it calls itself again. -/
theorem guarded_connection : Guarded connectionEnds (bodies creators) := by
  constructor
  · intro t proc
    cases proc with
    | readRequest creator => exact (plain_readsRequest creator).takes
    | readResponse peer creator => exact (plain_readsResponse peer creator).takes
    -- the bodies of the writes are those of the template
    | write channel proc =>
      have htakes : Takes (S := writeSignature Serializer) 0 (writeBodies serializer () proc) :=
        guarded_write.takes () proc
      exact htakes.embed
  · intro t proc
    cases proc with
    | readRequest creator => exact (plain_readsRequest creator).pays
    | readResponse peer creator => exact (plain_readsResponse peer creator).pays
    | write channel proc =>
      have hpays : Pays (S := writeSignature Serializer) writeEnds 0 (writeBodies serializer () proc)
          (writeEnds () proc) := guarded_write.pays () proc
      exact hpays.embed fun _ _ => rfl

end plain

/-! ## The exchange with a peer -/

/-- The request, if it is over with the client's bytes. -/
def requested (creators : Creators) (seen : List Seen) : Option (Http.Result Request) :=
  (readLoop creators.request (.fresh requestFormat) (reads .client seen)).2

/-- What a peer has answered. -/
def received (creators : Creators) (peer : Peer) (seen : List Seen) :
    Option (Http.Result Response) :=
  (readLoop creators.response (.fresh responseFormat) (reads (.peer peer) seen)).2

/-- The fault of the calls on what a peer has answered. -/
def peerFault (peer : Peer) (seen : List Seen) : Option Fault :=
  readFault responseFormat (.fresh responseFormat) (reads (.peer peer) seen)

/-- Behind a request that is written. -/
def readAnswers (peer : Peer) (req : Request) : Option (Http.Result Response) → List Answered
  | some res => [⟨.writeRequest peer req, .ok 0⟩, ⟨.readResponse peer, res⟩]
  | none => []

/-- What the exchange has come to for the handler of the request. -/
def exchange (creators : Creators) (peer : Peer) (req : Request) (seen : List Seen) :
    List Answered :=
  match writeError (.peer peer) seen with
  | some err => [⟨.writeRequest peer req, .error err⟩]
  | none => readAnswers peer req (received creators peer seen)

/-- A request is written to the peer, and the answer is not read before that is done. -/
structure Exchanging (peer : Peer) (req : Request) (seen : List Seen) : Prop where
  only : OnlyOn (.peer peer) seen
  begins : wrote (.peer peer) seen <+: (RequestSerializer.new req).bytes
  ordered : reads (.peer peer) seen ≠ [] →
    wrote (.peer peer) seen = (RequestSerializer.new req).bytes

section exchange
variable {creators : Creators} {peer : Peer} {req : Request} {seen : List Seen}
  {trace : Trace connectionSignature} {wait : Wait connectionSignature}

/-- The exchange depends on what happens on the peer. -/
theorem exchange_congr {seen' : List Seen} (hreads : reads (.peer peer) seen = reads (.peer peer) seen')
    (hwrites : writes (.peer peer) seen = writes (.peer peer) seen') :
    exchange creators peer req seen = exchange creators peer req seen' := by
  rw [exchange, exchange, writeError_congr hwrites, received, received, hreads]

/-- While an entity is written nothing is read. -/
theorem Sending.reads_eq_nil {channel : Channel} {entity : Serializer}
    (h : Sending channel entity seen) (channel' : Channel) : reads channel' seen = [] := by
  obtain ⟨wevs, rfl⟩ := h.only
  exact reads_writesSeen

/-- Nothing is written elsewhere. -/
theorem Sending.writes_eq_nil {channel channel' : Channel} {entity : Serializer}
    (h : Sending channel entity seen) (hne : channel' ≠ channel) : writes channel' seen = [] := by
  obtain ⟨wevs, rfl⟩ := h.only
  rw [writes_writesSeen, if_neg hne.symm]

/-- An exchange begins with the request. -/
theorem Exchanging.of_sending (h : Sending (.peer peer) (RequestSerializer.new req) seen) :
    Exchanging peer req seen where
  only channel' hne := ⟨h.reads_eq_nil channel', h.writes_eq_nil hne⟩
  begins := h.begins
  ordered hreads := absurd (h.reads_eq_nil _) hreads

/-- Nothing has happened yet. -/
theorem Exchanging.nil : Exchanging peer req [] where
  only _ _ := ⟨rfl, rfl⟩
  begins := List.nil_prefix
  ordered hreads := absurd rfl hreads

/-- The answer is read behind the request. -/
theorem Exchanging.of_reading (h : Sending (.peer peer) (RequestSerializer.new req) seen)
    (hall : wrote (.peer peer) seen = (RequestSerializer.new req).bytes) (evs : List ReadEvent) :
    Exchanging peer req (seen ++ readsSeen (.peer peer) evs) := by
  -- reading writes nothing
  have hwrote : wrote (.peer peer) (seen ++ readsSeen (.peer peer) evs) =
      (RequestSerializer.new req).bytes := by
    rw [← hall]
    refine wrote_congr ?_
    rw [writes_append, writes_readsSeen, List.append_nil]
  refine ⟨fun channel' hne => ⟨?_, ?_⟩, hwrote ▸ List.prefix_rfl, fun _ => hwrote⟩
  · rw [reads_append, h.reads_eq_nil, reads_readsSeen, if_neg hne.symm, List.append_nil]
  · rw [writes_append, h.writes_eq_nil hne, writes_readsSeen, List.append_nil]

/-- What the exchange has come to behind the request. -/
theorem exchange_reading (h : Sending (.peer peer) (RequestSerializer.new req) seen)
    (hnone : writeError (.peer peer) seen = none) (evs : List ReadEvent) :
    exchange creators peer req (seen ++ readsSeen (.peer peer) evs) =
      readAnswers peer req (readLoop creators.response (.fresh responseFormat) evs).2 := by
  have hwrites : writes (.peer peer) (seen ++ readsSeen (.peer peer) evs) =
      writes (.peer peer) seen := by
    rw [writes_append, writes_readsSeen, List.append_nil]
  have hreads : reads (.peer peer) (seen ++ readsSeen (.peer peer) evs) = evs := by
    rw [reads_append, h.reads_eq_nil, reads_readsSeen, if_pos rfl, List.nil_append]
  rw [exchange, writeError_congr hwrites, hnone, received, hreads]

/-- The fault is that of the parser of responses. -/
theorem peerFault_reading (h : Sending (.peer peer) (RequestSerializer.new req) seen)
    (evs : List ReadEvent) : peerFault peer (seen ++ readsSeen (.peer peer) evs) =
      readFault responseFormat (.fresh responseFormat) evs := by
  rw [peerFault, reads_append, h.reads_eq_nil, reads_readsSeen, if_pos rfl, List.nil_append]

/-- While the request is written there is none. -/
theorem peerFault_sending (h : Sending (.peer peer) (RequestSerializer.new req) seen) :
    peerFault peer seen = none := by
  rw [peerFault, h.reads_eq_nil]
  rfl

/-- While the request is written nothing is answered. -/
theorem exchange_sending (h : Sending (.peer peer) (RequestSerializer.new req) seen)
    (hnone : writeError (.peer peer) seen = none) : exchange creators peer req seen = [] := by
  rw [exchange, hnone, received, h.reads_eq_nil]
  rfl

variable {t : ConnectionTy} {func : Except Io.Error Unit → Expr connectionSignature t}

/-- A request that is written, and the expression that reads the answer. -/
theorem delivers_exchange (toResponse : connectionSignature.Val t → Option Response)
    (herror : ∀ err trace value, Delivers (bodies creators) (func (.error err)) trace value →
      trace = [] ∧ toResponse value = none)
    (hok : ∀ trace value, Delivers (bodies creators) (func (.ok ())) trace value →
      ∃ evs res, answers trace = readsSeen (.peer peer) evs ∧
        (readLoop creators.response (.fresh responseFormat) evs).2 = some res ∧
        UpToFault (readFault responseFormat (.fresh responseFormat) evs) [] (effectsOf trace) ∧
        toResponse value = res.toOption)
    {value : connectionSignature.Val t}
    (h : Delivers (bodies creators) (.flatmap (sendRequest peer req) func) trace value) :
    Exchanging peer req (answers trace) ∧
      exchanged (exchange creators peer req (answers trace)) = some (toResponse value) ∧
      UpToFault (peerFault peer (answers trace)) [] (effectsOf trace) := by
  obtain ⟨trace₁, written, trace₂, hsend, hnext, rfl⟩ := delivers_flatmap.mp h
  obtain ⟨hquiet, hsending, ⟨rfl, hall, hnone⟩ | ⟨err, rfl, herr⟩⟩ := delivers_send hsend
  · -- the request is written whole, and the response is read
    -- the request is written whole, and the response is read
    obtain ⟨evs, res, hseen, hres, hfault, hvalue⟩ := hok _ _ hnext
    rw [answers_append, hseen, exchange_reading hsending hnone, hres, hvalue,
      peerFault_reading hsending, effectsOf_append, hquiet]
    exact ⟨.of_reading hsending hall evs, rfl, hfault⟩
  · -- a write has failed, and nothing is read
    -- a write has failed, and nothing is read
    obtain ⟨rfl, hvalue⟩ := herror _ _ _ hnext
    rw [List.append_nil, exchange, herr, hvalue, peerFault_sending hsending]
    exact ⟨.of_sending hsending, rfl, hquiet⟩

/-- An exchange that waits writes to its peer, or reads from it. -/
theorem blocks_exchange
    (herror : ∀ err trace wait, ¬ Blocks (bodies creators) (func (.error err)) trace wait)
    (hok : ∀ trace wait, Blocks (bodies creators) (func (.ok ())) trace wait →
      ∃ evs, answers trace = readsSeen (.peer peer) evs ∧ wait = .answer (.read (.peer peer)) ∧
        (readLoop creators.response (.fresh responseFormat) evs).2 = none ∧
        UpToFault (readFault responseFormat (.fresh responseFormat) evs) [] (effectsOf trace))
    (h : Blocks (bodies creators) (.flatmap (sendRequest peer req) func) trace wait) :
    Exchanging peer req (answers trace) ∧
      exchanged (exchange creators peer req (answers trace)) = none ∧
      UpToFault (peerFault peer (answers trace)) [] (effectsOf trace) ∧
      ((∃ offered, wait = .answer (.write (.peer peer) offered)) ∨
        wait = .answer (.read (.peer peer))) := by
  obtain hsend | ⟨trace₁, written, trace₂, hsend, hnext, rfl⟩ := blocks_flatmap.mp h
  · -- still writing
    -- still writing
    obtain ⟨hquiet, hsending, hnone, hwait⟩ := blocks_send hsend
    rw [exchange_sending hsending hnone, peerFault_sending hsending]
    exact ⟨.of_sending hsending, rfl, hquiet, .inl hwait⟩
  · obtain ⟨hquiet, hsending, ⟨rfl, hall, hnone⟩ | ⟨err, rfl, -⟩⟩ := delivers_send hsend
    · -- written, and still reading
      -- written, and still reading
      obtain ⟨evs, hseen, hwait, hres, hfault⟩ := hok _ _ hnext
      rw [answers_append, hseen, exchange_reading hsending hnone, hres,
        peerFault_reading hsending, effectsOf_append, hquiet]
      exact ⟨.of_reading hsending hall evs, rfl, hfault, .inr hwait⟩
    · exact absurd hnext (herror _ _ _)

end exchange

end Webserv.Connection
