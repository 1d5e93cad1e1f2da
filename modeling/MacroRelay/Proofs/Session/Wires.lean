import MacroRelay.Proofs.Client.Calls
import MacroRelay.Proofs.Session.Errand
import MacroRelay.Proofs.Session.Stores
import MacroRelay.Supervisor
import Mathlib.Logic.Function.Basic

/-!
# Connections and what went over them

A wire is a client together with the requests and responses of its server process. What is known
of a wire stays known (`Wire.Grows`): nothing sent or heard is taken back, the fingerprint that
the process reported does not change, and a connection that is gone refuses every call.
-/

namespace MacroRelay

structure Wire where
  client : Client := {}
  sent : List Request := []
  heard : List Response := []
  greeting : Option UInt64 := none
  /-- The fingerprint that the process answered to the greeting, once it is stored. -/
  reported : Option Text := none

namespace Wire

def step (wire : Wire) (m : Move) : Option Wire :=
  (wire.client.step m).map fun client =>
    { wire with client, heard := Client.heardAfter wire.heard m }

def send (wire : Wire) (method params : Text) : Wire :=
  { wire with
    client := wire.client.perform [.start method]
    sent := ⟨wire.client.lastId + 1, method, some params⟩ :: wire.sent }

def close (wire : Wire) : Wire :=
  { wire with client := wire.client.close }

def greet (wire : Wire) : Wire :=
  { wire.send Method.handshake.name
      (Gen2.HandshakeRequest.codec.write (MacroRelay.greeting Version.current)) with
    greeting := some (wire.client.lastId + 1) }

def report (wire : Wire) (answer : Gen2.HandshakeResult) : Wire :=
  { wire with reported := some answer.fingerprint }

def Heard (wire : Wire) (answer : Gen2.HandshakeResult) : Prop :=
  ∃ response ∈ wire.heard, wire.greeting = some response.id ∧ response.error = [] ∧
    Gen2.HandshakeResult.ofOutcome (.ok response.result) = .ok answer

/-- Every outcome was heard, and so was the fingerprint. -/
structure Honest (wire : Wire) : Prop where
  outcomes : wire.client.Honest wire.heard
  reported : ∀ f, wire.reported = some f → ∃ answer, wire.Heard answer ∧ answer.fingerprint = f

/-- The process gave the answer to a request for the query. -/
def Answered (wire : Wire) (q : Query) (r : Gen2.Result) : Prop :=
  ∃ request ∈ wire.sent, request.method = (q.expansion.method q.generation).name ∧
    request.params = some (q.expansion.params q.generation) ∧
      ∃ response ∈ wire.heard, response.id = request.id ∧ response.error = [] ∧
        Expansion.answer? q.generation response.result = some r

structure Grows (wire wire' : Wire) : Prop where
  reported : ∀ f, wire.reported = some f → wire'.reported = some f
  sent : wire.sent ⊆ wire'.sent
  heard : wire.heard ⊆ wire'.heard
  gone : wire.client.cause ≠ none → wire'.client.cause ≠ none
  refuses : ∀ id, wire.client.Refuses id → wire'.client.Refuses id
  honest : wire.Honest → wire'.Honest

variable {wire wire' wire'' : Wire}

theorem Grows.refl (wire : Wire) : wire.Grows wire :=
  ⟨fun _ h => h, List.Subset.refl _, List.Subset.refl _, id, fun _ h => h, id⟩

theorem Grows.trans (h : wire.Grows wire') (h' : wire'.Grows wire'') : wire.Grows wire'' where
  reported f hf := h'.reported f (h.reported f hf)
  sent := List.Subset.trans h.sent h'.sent
  heard := List.Subset.trans h.heard h'.heard
  gone hg := h'.gone (h.gone hg)
  refuses id hr := h'.refuses id (h.refuses id hr)
  honest hh := h'.honest (h.honest hh)

theorem Grows.of_client {m : Move} {client : Client} (hs : wire.client.step m = some client)
    (hclient : wire'.client = client) (hheard : wire'.heard = Client.heardAfter wire.heard m)
    (hsent : wire.sent ⊆ wire'.sent) (hreported : wire'.reported = wire.reported)
    (hgreeting : ∀ id, wire.greeting = some id → wire'.greeting = some id) : wire.Grows wire' := by
  have hmore : wire.heard ⊆ wire'.heard := hheard ▸ Client.heardAfter_subset wire.heard m
  refine ⟨fun _ hf => hreported.trans hf, hsent, hmore,
    fun hg => hclient ▸ (Client.step_spec hs).gone hg, fun _ hr => hclient ▸ hr.step hs,
    fun hh => ⟨hclient ▸ hheard ▸ hh.outcomes.step hs, fun f hf => ?_⟩⟩
  obtain ⟨answer, ⟨response, hresponse, hid, hanswer⟩, hf⟩ := hh.reported f (hreported ▸ hf)
  exact ⟨answer, ⟨response, hmore hresponse, hgreeting _ hid, hanswer⟩, hf⟩

theorem step_eq_some {m : Move} (h : wire.step m = some wire') :
    wire.Grows wire' ∧ wire'.reported = wire.reported := by
  obtain ⟨client, hs, rfl⟩ := Option.map_eq_some_iff.mp h
  exact ⟨.of_client hs rfl rfl (List.Subset.refl _) rfl fun _ h => h, rfl⟩

theorem grows_send (wire : Wire) (method params : Text) : wire.Grows (wire.send method params) :=
  .of_client (m := .start method) rfl rfl rfl (List.subset_cons_self _ _) rfl fun _ h => h

theorem grows_close (wire : Wire) : wire.Grows wire.close :=
  .of_client (m := .close) rfl rfl rfl (List.Subset.refl _) rfl fun _ h => h

theorem grows_greet (h : wire.greeting = none) : wire.Grows wire.greet :=
  .of_client (m := .start Method.handshake.name) rfl rfl rfl (List.subset_cons_self _ _) rfl
    fun _ hid => nomatch h.symm.trans hid

theorem Honest.report {answer : Gen2.HandshakeResult} (h : wire.Honest)
    (hheard : wire.Heard answer) : (wire.report answer).Honest := by
  refine ⟨h.outcomes, fun f hf => ⟨answer, hheard, ?_⟩⟩
  cases hf
  rfl

theorem grows_report {answer : Gen2.HandshakeResult} (h : wire.reported = none)
    (hheard : wire.Heard answer) : wire.Grows (wire.report answer) :=
  ⟨fun _ hf => (nomatch h.symm.trans hf), List.Subset.refl _, List.Subset.refl _, id, fun _ h => h,
    fun hh => hh.report hheard⟩

theorem gone_close (wire : Wire) : wire.close.client.cause ≠ none := by
  show (wire.client.cause.or (some Cause.closed)) ≠ none
  simp

theorem Answered.grow {q : Query} {r : Gen2.Result} (h : wire.Answered q r)
    (hg : wire.Grows wire') : wire'.Answered q r := by
  obtain ⟨request, hsent, hmethod, hparams, response, hheard, hanswer⟩ := h
  exact ⟨request, hg.sent hsent, hmethod, hparams, response, hg.heard hheard, hanswer⟩

end Wire

/-- The connections there are and have been, by their names. -/
abbrev Wires (κ : Type) := κ → Option Wire

namespace Wires

variable {κ : Type}

def Known (wires : Wires κ) (client : κ) : Prop :=
  ∃ wire, wires client = some wire ∧ wire.reported ≠ none

/-- The fingerprint is that of the client, unless the client is gone. -/
def Paired (wires : Wires κ) (client : κ) (fingerprint : Text) : Prop :=
  ∃ wire, wires client = some wire ∧ (wire.reported = some fingerprint ∨ wire.client.cause ≠ none)

/-- A call for the query has the number. It is refused unless the fingerprint is that of the
client. -/
def Awaited (wires : Wires κ) (client : κ) (q : Query) (id : UInt64) : Prop :=
  ∃ wire, wires client = some wire ∧
    ⟨id, (q.expansion.method q.generation).name, some (q.expansion.params q.generation)⟩ ∈
      wire.sent ∧ (wire.reported = some q.fingerprint ∨ wire.client.Refuses id)

/-- A process gave the answer that had reported the fingerprint of the query. -/
def Answered (wires : Wires κ) (q : Query) (r : Gen2.Result) : Prop :=
  ∃ client wire, wires client = some wire ∧ wire.reported = some q.fingerprint ∧ wire.Answered q r

/-- Answers for a query with the digest, by a process with its fingerprint. -/
def admission (wires : Wires κ) : Admission where
  admits d r := ∃ q : Query, q.digest = d ∧ ∃ r', wires.Answered q r' ∧ r.Alike r'
  alike := fun halike ⟨q, hd, r', hanswered, hr⟩ => ⟨q, hd, r', hanswered, halike.trans hr⟩

def Grow (wires wires' : Wires κ) : Prop :=
  ∀ client wire, wires client = some wire → ∃ wire', wires' client = some wire' ∧ wire.Grows wire'

/-- No process has reported anything new. -/
def SameReports (wires wires' : Wires κ) : Prop :=
  ∀ client wire', wires' client = some wire' →
    ∃ wire, wires client = some wire ∧ wire'.reported = wire.reported

def Honest (wires : Wires κ) : Prop :=
  ∀ client wire, wires client = some wire → wire.Honest

variable {wires wires' wires'' : Wires κ} {client : κ} {q : Query}

theorem Grow.refl (wires : Wires κ) : wires.Grow wires :=
  fun _ wire h => ⟨wire, h, .refl wire⟩

theorem Grow.trans (h : wires.Grow wires') (h' : wires'.Grow wires'') : wires.Grow wires'' := by
  intro client wire hwire
  obtain ⟨wire', hwire', hg⟩ := h client wire hwire
  obtain ⟨wire'', hwire'', hg'⟩ := h' client wire' hwire'
  exact ⟨wire'', hwire'', hg.trans hg'⟩

theorem SameReports.refl (wires : Wires κ) : wires.SameReports wires :=
  fun _ wire h => ⟨wire, h, rfl⟩

theorem SameReports.trans (h : wires.SameReports wires') (h' : wires'.SameReports wires'') :
    wires.SameReports wires'' := by
  intro client wire'' hwire''
  obtain ⟨wire', hwire', heq'⟩ := h' client wire'' hwire''
  obtain ⟨wire, hwire, heq⟩ := h client wire' hwire'
  exact ⟨wire, hwire, heq'.trans heq⟩

theorem Honest.grow (h : wires.Honest) (hg : wires.Grow wires') (hsame : wires.SameReports wires') :
    wires'.Honest := by
  intro client wire' hwire'
  obtain ⟨wire, hwire, -⟩ := hsame client wire' hwire'
  obtain ⟨wire₀, hwire₀, hgrows⟩ := hg client wire hwire
  cases hwire'.symm.trans hwire₀
  exact hgrows.honest (h client wire hwire)

theorem Known.grow (h : wires.Known client) (hg : wires.Grow wires') : wires'.Known client := by
  obtain ⟨wire, hwire, hreported⟩ := h
  obtain ⟨wire', hwire', hg⟩ := hg client wire hwire
  obtain ⟨f, hf⟩ := Option.ne_none_iff_exists'.mp hreported
  exact ⟨wire', hwire', by simp [hg.reported f hf]⟩

theorem Paired.grow {f : Text} (h : wires.Paired client f) (hg : wires.Grow wires') :
    wires'.Paired client f := by
  obtain ⟨wire, hwire, hpaired⟩ := h
  obtain ⟨wire', hwire', hg⟩ := hg client wire hwire
  exact ⟨wire', hwire', hpaired.imp (hg.reported f) hg.gone⟩

theorem Awaited.grow {id : UInt64} (h : wires.Awaited client q id) (hg : wires.Grow wires') :
    wires'.Awaited client q id := by
  obtain ⟨wire, hwire, hsent, hawaited⟩ := h
  obtain ⟨wire', hwire', hg⟩ := hg client wire hwire
  exact ⟨wire', hwire', hg.sent hsent, hawaited.imp (hg.reported _) (hg.refuses id)⟩

theorem Answered.grow {r : Gen2.Result} (h : wires.Answered q r) (hg : wires.Grow wires') :
    wires'.Answered q r := by
  obtain ⟨client, wire, hwire, hreported, hanswered⟩ := h
  obtain ⟨wire', hwire', hg⟩ := hg client wire hwire
  exact ⟨client, wire', hwire', hg.reported _ hreported, hanswered.grow hg⟩

theorem admits_grow {d : Digest} {r : Gen2.Result} (h : wires.admission.admits d r)
    (hg : wires.Grow wires') : wires'.admission.admits d r := by
  obtain ⟨q, hd, r', hanswered, hr⟩ := h
  exact ⟨q, hd, r', hanswered.grow hg, hr⟩

/-- The outcome of a call that succeeds comes from the process with the fingerprint. -/
theorem Awaited.answered {id : UInt64} {raw : Option Text} {r : Gen2.Result}
    (h : wires.Awaited client q id) (hhonest : wires.Honest)
    (ho : (wires client).bind (·.client.outcome? id) = some (.ok raw))
    (hr : Expansion.answer? q.generation raw = some r) : wires.Answered q r := by
  obtain ⟨wire, hwire, hsent, hawaited⟩ := h
  rw [hwire] at ho
  rcases hawaited with hreported | hrefuses
  · obtain ⟨response, hheard, hid, herror, hresult⟩ :=
      (hhonest client wire hwire).outcomes.outcome ho
    exact ⟨client, wire, hwire, hreported, _, hsent, rfl, rfl, response, hheard, hid, herror,
      hresult ▸ hr⟩
  · exact absurd ho hrefuses.outcome

def closed (wires : Wires κ) : Wires κ := fun client => (wires client).map Wire.close

theorem grow_closed (wires : Wires κ) : wires.Grow wires.closed :=
  fun client wire hwire => ⟨wire.close, by rw [closed, hwire, Option.map_some], wire.grows_close⟩

theorem closed_eq_some {wire' : Wire} (h : wires.closed client = some wire') :
    ∃ wire, wires client = some wire ∧ wire.close = wire' :=
  Option.map_eq_some_iff.mp h

-- ---------------------------------------------------------------------------
-- Changing one wire
-- ---------------------------------------------------------------------------

variable [DecidableEq κ]

def alter (wires : Wires κ) (client : κ) (f : Wire → Wire) : Wires κ :=
  Function.update wires client ((wires client).map f)

theorem alter_eq_some {f : Wire → Wire} {other : κ} {wire' : Wire}
    (h : wires.alter client f other = some wire') :
    (other = client ∧ ∃ wire, wires client = some wire ∧ f wire = wire') ∨
      other ≠ client ∧ wires other = some wire' := by
  unfold alter at h
  rw [Function.update_apply] at h
  split at h
  · rename_i heq
    exact .inl ⟨heq, Option.map_eq_some_iff.mp h⟩
  · rename_i hne
    exact .inr ⟨hne, h⟩

theorem alter_self {f : Wire → Wire} {wire : Wire} (h : wires client = some wire) :
    wires.alter client f client = some (f wire) := by
  rw [alter, Function.update_self, h, Option.map_some]

theorem grow_alter {f : Wire → Wire} (hf : ∀ wire, wires client = some wire → wire.Grows (f wire)) :
    wires.Grow (wires.alter client f) := by
  intro other wire hwire
  by_cases heq : other = client
  · subst heq
    exact ⟨f wire, alter_self hwire, hf wire hwire⟩
  · exact ⟨wire, by rw [alter, Function.update_of_ne heq, hwire], .refl wire⟩

theorem sameReports_alter {f : Wire → Wire}
    (hf : ∀ wire, wires client = some wire → (f wire).reported = wire.reported) :
    wires.SameReports (wires.alter client f) := by
  intro other wire' h
  rcases alter_eq_some h with ⟨rfl, wire, hwire, rfl⟩ | ⟨-, hwire⟩
  · exact ⟨wire, hwire, hf wire hwire⟩
  · exact ⟨wire', hwire, rfl⟩

def closeAll (wires : Wires κ) (clients : List κ) : Wires κ :=
  clients.foldl (fun wires client => wires.alter client Wire.close) wires

theorem grow_closeAll (wires : Wires κ) (clients : List κ) :
    wires.Grow (wires.closeAll clients) := by
  induction clients generalizing wires with
  | nil => exact .refl wires
  | cons client clients ih => exact (grow_alter fun wire _ => wire.grows_close).trans (ih _)

theorem sameReports_closeAll (wires : Wires κ) (clients : List κ) :
    wires.SameReports (wires.closeAll clients) := by
  induction clients generalizing wires with
  | nil => exact .refl wires
  | cons client clients ih =>
    have hclose : wires.SameReports (wires.alter client Wire.close) :=
      sameReports_alter fun _ _ => rfl
    exact hclose.trans (ih _)

theorem gone_closeAll {clients : List κ} (hmem : client ∈ clients) {wire : Wire}
    (hwire : wires.closeAll clients client = some wire) : wire.client.cause ≠ none := by
  induction clients generalizing wires with
  | nil => cases hmem
  | cons other clients ih =>
    rcases List.mem_cons.mp hmem with rfl | hmem
    · obtain ⟨wire', hwire', -⟩ :=
        sameReports_closeAll (wires.alter client Wire.close) clients _ _ hwire
      obtain ⟨-, wire₀, -, rfl⟩ | ⟨hne, -⟩ := alter_eq_some hwire'
      · obtain ⟨wire'', hwire'', hg⟩ := grow_closeAll _ clients _ _ hwire'
        cases hwire.symm.trans hwire''
        exact hg.gone wire₀.gone_close
      · exact absurd rfl hne
    · exact ih hmem hwire

def line : Line (Wires κ) κ UInt64 where
  send wires client method params :=
    (wires.alter client (·.send method params), ((wires client).map (·.client.lastId + 1)).getD 0)
  outcome? wires client id := (wires client).bind (·.client.outcome? id)

theorem awaited_send (h : wires.Paired client q.fingerprint) :
    (line.send wires client (q.expansion.method q.generation).name
      (q.expansion.params q.generation)).1.Awaited client q
        (line.send wires client (q.expansion.method q.generation).name
          (q.expansion.params q.generation)).2 := by
  obtain ⟨wire, hwire, hpaired⟩ := h
  refine ⟨_, alter_self hwire, ?_, ?_⟩
  · simp [line, hwire, Wire.send]
  · refine hpaired.imp id fun hgone => ?_
    simp only [line, hwire, Option.map_some, Option.getD_some]
    exact Client.refuses_start hgone rfl

end Wires

end MacroRelay
