import MobileCloudCaching.Aodv.Mesh
import MobileCloudCaching.Aodv.Sends

/-!
# A network whose messages are octets

The nodes of this network put octets into packets and take packets out of their hooks.  When all
hosts have one byte order, each of its runs is a run of the network whose messages are structures.
-/

namespace MobileCloudCaching.Aodv

open Octets Transition

/-- A datagram on its way, as octets; `dst` is `sin_addr.s_addr` of the sender. -/
structure Frame (n : ℕ) where
  sender : Fin n
  receiver : Fin n
  dst : U32
  ttl : Byte
  data : List Byte

structure Ether (n : ℕ) where
  router : Fin n → Router
  air : List (Frame n)

namespace Ether

variable {n : ℕ}

/-- What can happen; `spare` are the octets of what is sent that no handler reads. -/
structure Action (n : ℕ) where
  plain : Mesh.Action n
  spare : Datagram → Spare

variable (node : Fin n → Params) (devSaddr : Fin n → U32)

/-- The packet in which a datagram comes in. -/
def packet (f : Frame n) : SkBuff :=
  .udp (node f.sender).order (node f.sender).myIp f.dst f.ttl aodvPort f.data

/-- The frames of a datagram that `v` sends. -/
def frames (v : Fin n) (hears : List (Fin n)) (spare : Datagram → Spare) (g : Datagram) :
    List (Frame n) :=
  (hears.filter fun w => g.dst = broadcastIp ∨
    seenIp (node v).order (node w).order g.dst = (node w).myIp).map fun w =>
      { sender := v, receiver := w, dst := g.dst, ttl := g.ttl,
        data := g.msg.octets (node v).order (spare g) }

/-- The node `v` makes a step of its own. -/
def act (v : Fin n) (e : Event) (hears : List (Fin n)) (spare : Datagram → Spare) (s : Ether n) :
    Option (Ether n) :=
  (Aodv.step (node v) e (s.router v)).map fun t =>
    { router := Function.update s.router v { t with sent := [] }
      air := s.air ++ t.sent.flatMap (frames node v hears spare) }

/-- The hook of the receiver gets a packet. -/
def receive (f : Frame n) (mem : Mem) (clk : Clock) (s : Ether n) : Option (Ether n) :=
  (inputHandler (node f.receiver) (devSaddr f.receiver) mem clk (packet node f)
    (s.router f.receiver)).value.map fun c =>
      { s with router := Function.update s.router f.receiver c.2 }

def step (a : Action n) (s : Ether n) : Option (Ether n) :=
  match a.plain with
  | .output v mem clk daddr hears => act node v (.output mem clk daddr) hears a.spare s
  | .timer v clk => act node v (.timer clk) [] a.spare s
  | .thread v mem clk hears => act node v (.thread mem clk) hears a.spare s
  | .deliver k mem clk =>
    (s.air[k]?).bind fun f => receive node devSaddr f mem clk { s with air := s.air.eraseIdx k }
  | .lose k => some { s with air := s.air.eraseIdx k }

/-! ## The two networks -/

/-- The frame carries the datagram. -/
structure Carries (f : Frame n) (c : Copy n) : Prop where
  sender : f.sender = c.sender
  receiver : f.receiver = c.receiver
  dst : f.dst = c.datagram.dst
  ttl : f.ttl = c.datagram.ttl
  fits : c.datagram.msg.Fits
  data : ∃ x, f.data = c.datagram.msg.octets (node c.sender).order x

/-- The network of octets is in the state of the network of messages. -/
structure Shows (s : Ether n) (t : Mesh n) : Prop where
  router : s.router = t.router
  quiet : ∀ v, (t.router v).sent = []
  air : List.Forall₂ (Carries node) s.air t.air

/-- No table is so large that a route error about it could not be sent. -/
def Roomy (s : Ether n) : Prop := ∀ v, (s.router v).routes.length < 2 ^ 28

instance (s : Ether n) : Decidable s.Roomy := by
  unfold Roomy
  infer_instance

/-- The action of the other network: a packet that the hook drops unread is lost. -/
def Action.follow (a : Action n) (s : Ether n) : Mesh.Action n :=
  match a.plain with
  | .deliver k mem clk =>
    if (s.air[k]?).any fun f => devSaddr f.receiver = (node f.sender).myIp then .lose k
    else .deliver k mem clk
  | b => b

section Simulation

variable {node devSaddr} {o : ByteOrder} {s s' : Ether n} {t : Mesh n} {a : Action n}

theorem sent_packetIn {mem : Mem} {clk : Clock} {a : Arrival} {r : Router} :
    (packetIn mem clk a r).2.sent = r.sent := by
  have hinsert : ∀ r, (insertTask mem clk a r).sent = r.sent := fun r => by
    unfold insertTask
    split <;> rfl
  have hvalid : (validAodvPacket a.msg r).2.sent = r.sent := by
    cases a.msg <;> rfl
  rw [packetIn]
  rcases hpacket : validAodvPacket a.msg r with ⟨_ | _, r'⟩
  · exact (congrArg (fun c => c.2.sent) hpacket).symm.trans hvalid
  · exact (hinsert r').trans ((congrArg (fun c => c.2.sent) hpacket).symm.trans hvalid)

/-- A route error is never longer than the table, nor than the one that it answers. -/
theorem fits_of_maySend {r : Router} {τ : Task} (hroom : r.routes.length < 2 ^ 28) {msg : Message}
    (h : τ.MaySend r msg) : msg.Fits := by
  cases msg with
  | rerr m =>
    rcases h with ⟨-, h⟩ | ⟨-, h⟩
    · exact h.trans_lt hroom
    · exact h.trans_lt (by decide)
  | rreq m => trivial
  | rrep m => trivial
  | rrepAck => trivial

theorem sends_step {p : Params} {e : Event} {r r' : Router} (hroom : r.routes.length < 2 ^ 28)
    (h : Aodv.step p e r = some r') : Adds Message.Fits r r' := by
  cases e with
  | packet mem clk a => exact .of_eq (Option.some.inj h ▸ sent_packetIn)
  | output mem clk daddr => exact Option.some.inj h ▸ adds_output fun _ => trivial
  | timer clk => exact .of_eq (Option.some.inj h ▸ rfl)
  | thread mem clk =>
    rcases runTask_cases h with ⟨-, rfl⟩ | ⟨τ, -, -, h⟩
    · exact .of_eq rfl
    · exact fun g hg => (adds_handle h g hg).imp id fun hs => fits_of_maySend hroom hs

theorem carries_frames (horder : ∀ v, (node v).order = o) {v : Fin n} {hears : List (Fin n)}
    {spare : Datagram → Spare} {gs : List Datagram} (hfits : ∀ g ∈ gs, g.msg.Fits) :
    List.Forall₂ (Carries node) (gs.flatMap (frames node v hears spare))
      (gs.flatMap (Mesh.copies node v hears)) := by
  induction gs with
  | nil => exact .nil
  | cons g gs ih =>
    obtain ⟨hg, hgs⟩ := List.forall_mem_cons.1 hfits
    rw [List.flatMap_cons, List.flatMap_cons]
    refine List.rel_append ?_ (ih hgs)
    simp only [frames, Mesh.copies, horder, seenIp_self]
    rw [List.forall₂_map_left_iff, List.forall₂_map_right_iff]
    refine List.forall₂_same.2 fun w _ => ⟨rfl, rfl, rfl, rfl, hg, spare g, ?_⟩
    rw [horder]

theorem Shows.act (horder : ∀ v, (node v).order = o) (h : Shows node s t) (hroom : s.Roomy)
    {v : Fin n} {e : Event} {hears : List (Fin n)} {spare : Datagram → Spare}
    (hs : Ether.act node v e hears spare s = some s') :
    ∃ t', Mesh.act node v e hears t = some t' ∧ Shows node s' t' := by
  obtain ⟨r, hr, rfl⟩ := Option.map_eq_some_iff.1 hs
  have hfits : ∀ g ∈ r.sent, g.msg.Fits := fun g hg =>
    (sends_step (hroom v) hr g hg).resolve_left (by rw [h.router, h.quiet]; exact List.not_mem_nil)
  rw [h.router] at hr
  refine ⟨_, by rw [Mesh.act, hr, Option.map_some], ?_, fun w => ?_, ?_⟩
  · rw [h.router]
  · show (Function.update t.router v { r with sent := [] } w).sent = []
    by_cases hw : w = v
    · rw [hw, Function.update_self]
    · rw [Function.update_of_ne hw]
      exact h.quiet w
  · exact List.rel_append h.air (carries_frames horder hfits)

theorem exists_carried {l : List (Frame n)} {l' : List (Copy n)}
    (h : List.Forall₂ (Carries node) l l') {k : ℕ} {f : Frame n} (hf : l[k]? = some f) :
    ∃ c, l'[k]? = some c ∧ Carries node f c := by
  induction h generalizing k with
  | nil => cases hf
  | cons hc _ ih =>
    cases k with
    | zero => exact ⟨_, rfl, Option.some.inj hf ▸ hc⟩
    | succ k => exact ih hf

theorem Shows.erase (h : Shows node s t) (k : ℕ) :
    Shows node { s with air := s.air.eraseIdx k } { t with air := t.air.eraseIdx k } where
  router := h.router
  quiet := h.quiet
  air := by
    rw [List.eraseIdx_eq_take_drop_succ, List.eraseIdx_eq_take_drop_succ]
    exact List.rel_append (List.forall₂_take k h.air) (List.forall₂_drop (k + 1) h.air)

/-- What the hook of the receiver makes of a frame. -/
theorem Carries.inputHandler (horder : ∀ v, (node v).order = o) {f : Frame n} {c : Copy n}
    (hc : Carries node f c) {mem : Mem} {clk : Clock} {r : Router} :
    (inputHandler (node f.receiver) (devSaddr f.receiver) mem clk (packet node f) r).value =
      some (if devSaddr f.receiver = (node f.sender).myIp then (.drop, r) else
        packetIn mem clk (Mesh.arrival node c) r) := by
  obtain ⟨x, hx⟩ := hc.data
  have harrival : seenArrival (node f.receiver) o (node f.sender).myIp f.dst f.ttl c.datagram.msg =
      Mesh.arrival node c := by
    rw [seenArrival, horder, seenIp_self, seenIp_self, Message.seen_self, hc.sender, hc.receiver,
      hc.dst, hc.ttl]
    rfl
  rw [packet, hx, ← hc.sender, inputHandler_udp hc.fits, horder, horder, seenIp_self, harrival]

theorem Shows.receive (horder : ∀ v, (node v).order = o) (h : Shows node s t) {f : Frame n}
    {c : Copy n} (hc : Carries node f c) {mem : Mem} {clk : Clock}
    (hdev : devSaddr f.receiver ≠ (node f.sender).myIp)
    (hs : Ether.receive node devSaddr f mem clk s = some s') :
    ∃ t', Mesh.act node c.receiver (.packet mem clk (Mesh.arrival node c)) [] t = some t' ∧
      Shows node s' t' := by
  rw [Ether.receive, hc.inputHandler horder, if_neg hdev, Option.map_some] at hs
  obtain rfl := Option.some.inj hs
  generalize hr : (packetIn mem clk (Mesh.arrival node c) (s.router f.receiver)).2 = r
  have hquiet : r.sent = [] := by rw [← hr, sent_packetIn, h.router, h.quiet]
  have hsame : { r with sent := [] } = r := congrArg (fun l => { r with sent := l }) hquiet.symm
  refine ⟨{ t with router := Function.update t.router f.receiver r }, ?_, ?_, fun w => ?_, h.air⟩
  · rw [Mesh.act, ← hc.receiver, ← h.router, Aodv.step, hr, Option.map_some, hsame, hquiet,
      List.flatMap_nil, List.append_nil]
  · rw [h.router]
  · show (Function.update t.router f.receiver r w).sent = []
    by_cases hw : w = f.receiver
    · rw [hw, Function.update_self, hquiet]
    · rw [Function.update_of_ne hw]
      exact h.quiet w

/-- Each step of the network of octets is one of the network of messages. -/
theorem Shows.step (horder : ∀ v, (node v).order = o) (h : Shows node s t) (hroom : s.Roomy)
    (hs : Ether.step node devSaddr a s = some s') :
    ∃ t', Mesh.step node (a.follow node devSaddr s) t = some t' ∧ Shows node s' t' := by
  obtain ⟨plain, spare⟩ := a
  cases plain with
  | output v mem clk daddr hears => exact h.act horder hroom hs
  | timer v clk => exact h.act horder hroom hs
  | thread v mem clk hears => exact h.act horder hroom hs
  | lose k => exact ⟨_, rfl, Option.some.inj hs ▸ h.erase k⟩
  | deliver k mem clk =>
    obtain ⟨f, hf, hs⟩ := Option.bind_eq_some_iff.1 hs
    obtain ⟨c, hk, hc⟩ := exists_carried h.air hf
    have hfollow : Action.follow node devSaddr ⟨.deliver k mem clk, spare⟩ s =
        if devSaddr f.receiver = (node f.sender).myIp then .lose k else .deliver k mem clk := by
      simp [Action.follow, hf]
    rw [hfollow]
    by_cases hdev : devSaddr f.receiver = (node f.sender).myIp
    · rw [Ether.receive, hc.inputHandler horder, if_pos hdev, Option.map_some,
        Function.update_eq_self] at hs
      rw [if_pos hdev]
      exact ⟨_, rfl, Option.some.inj hs ▸ h.erase k⟩
    · rw [if_neg hdev, Mesh.step, hk, Option.bind_some]
      exact (h.erase k).receive horder hc hdev hs

/-- Each run of the network of octets is one of the network of messages. -/
theorem exec_shows (horder : ∀ v, (node v).order = o) {l : List (Action n)}
    (hroom : AllSteps (Ether.step node devSaddr) (fun _ s => s.Roomy) l s) (h : Shows node s t)
    (he : exec (Ether.step node devSaddr) l s = some s') :
    ∃ l' t', l'.length = l.length ∧ exec (Mesh.step node) l' t = some t' ∧ Shows node s' t' := by
  induction l generalizing s t with
  | nil => exact ⟨[], t, rfl, rfl, Option.some.inj he ▸ h⟩
  | cons a l ih =>
    obtain ⟨u, hu, hl⟩ := exec_cons_eq_some.1 he
    obtain ⟨t', ht', h'⟩ := h.step horder hroom.1 hu
    obtain ⟨l', t'', hlen, hrun, hend⟩ := ih (hroom.2 u hu) h' hl
    exact ⟨a.follow node devSaddr s :: l', t'', congrArg (· + 1) hlen,
      exec_cons_eq_some.2 ⟨t', ht', hrun⟩, hend⟩

end Simulation

open Mesh in
/-- The route discovery of the three nodes, in octets. -/
theorem exec_shows_lineRun :
    ∃ s', exec (Ether.step threeNodes fun _ => 0)
        (lineRun.map fun a => { plain := a, spare := fun _ => ⟨0, 0⟩ })
        { router := loaded.router, air := [] } = some s' ∧
      ∃ l' t', l'.length = (lineRun.map fun a =>
          ({ plain := a, spare := fun _ => ⟨0, 0⟩ } : Ether.Action 3)).length ∧
        exec (Mesh.step threeNodes) l' loaded = some t' ∧ Shows threeNodes s' t' := by
  have hrun : (exec (Ether.step threeNodes fun _ => 0)
      (lineRun.map fun a => { plain := a, spare := fun _ => ⟨0, 0⟩ })
      { router := loaded.router, air := [] }).isSome = true := by decide +kernel
  obtain ⟨s', hs'⟩ := Option.isSome_iff_exists.1 hrun
  exact ⟨s', hs', exec_shows (o := .big) (fun _ => rfl) (by decide +kernel)
    ⟨rfl, fun v => (nodeInv_initModule (threeNodes_differ v) (loaded_init v)).2.1, .nil⟩ hs'⟩

end Ether

end MobileCloudCaching.Aodv
