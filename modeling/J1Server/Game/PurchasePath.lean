import J1Server.Auction.Settled
import J1Server.Core.Link
import J1Server.Game.Elements

/-! # The way of a purchase

From the clients over the GameServer and the AuctionServer to the workers: two kinds of connections, the
handlers at the end of each, and the queues of the write workers. -/

namespace Game

open Lib Core
open Auction (AuctionItemInfo Database Task auctionDb mysqlLaw sampleDb sampleInfo)

/-- `Game::PacketType` and `SS_Auction::PacketType`. -/
def pktReqPurchaseItem : Int16 := 4006
def ssPktReqPurchaseItem : Int16 := 6

/-- The generated classes: `purchase` reads the fields of a client's request, `pack` and `unpack` write and read
those of the request between the servers. A message that is too large for a packet is not packed. -/
structure PacketClasses (Msg Ss : Int16 → Type) where
  client : ∀ code, Protobuf (Msg code)
  server : ∀ code, Protobuf (Ss code)
  purchase : Msg pktReqPurchaseItem → ReqPurchaseItem
  pack : Auction.ReqPurchaseItem → Option (Ss ssPktReqPurchaseItem)
  unpack : Ss ssPktReqPurchaseItem → Auction.ReqPurchaseItem

structure PacketClasses.Lawful {Msg Ss : Int16 → Type} (K : PacketClasses Msg Ss) : Prop where
  client : ∀ code, (K.client code).Lawful
  server : ∀ code, (K.server code).Lawful
  packed : ∀ req msg, K.pack req = some msg → K.unpack msg = req

/-- The message, if the packet has this code and could be parsed. -/
def ofCode {Msg : Int16 → Type} (code : Int16) (d : Delivery Msg) : Option (Msg code) :=
  if h : d.1 = code then h ▸ d.2 else none

/-- `client` sent the request, or the GameServer forwarded it for `client`. -/
structure PurchaseEntry where
  client : Nat
  info : AuctionItemInfo
  deriving DecidableEq

structure PurchasePath (Msg Ss : Int16 → Type) where
  clients : Nat → Link Msg := fun _ => {}
  /-- What the clients passed to `SendPacket`. -/
  asked : List PurchaseEntry := []
  server : Link Ss := {}
  forwarded : List PurchaseEntry := []
  /-- The tasks that wait, with their write workers, oldest first. -/
  waiting : List (Nat × Task) := []
  pool : Pool auctionDb Task (Option Auction.Response)

inductive PurchaseEvent (Msg Ss : Int16 → Type)
  /-- The GameServer handles what the client's connection brings. What it knows then is part of the event. -/
  | client (i : Nat) (e : LinkEvent Msg) (snap : Option Snapshot) (now : Int) (auctionSession : Bool)
  /-- The AuctionServer handles what the connection between the servers brings. -/
  | server (e : LinkEvent Ss)
  | begin (worker : Nat)
  | pool (e : PoolEvent Task)

namespace PurchasePath

variable {Msg Ss : Int16 → Type}

section Step

variable (K : PacketClasses Msg Ss) (sessionId : Nat → UInt64) (writers : Nat) (law : Call auctionDb → Harm → Bool)

/-- What a client's packet asks to buy. -/
def asks (d : Delivery Msg) : Option ReqPurchaseItem := (ofCode pktReqPurchaseItem d).map K.purchase

/-- What the GameServer forwards for a client's packet. -/
def relays (snap : Option Snapshot) (now : Int) (session : UInt64) (auctionSession : Bool) (d : Delivery Msg) :
    Option Auction.ReqPurchaseItem :=
  (asks K d).bind fun pkt =>
    match handleReqPurchaseItem snap now session auctionSession pkt with
    | .ok { forwarded := some (.purchaseItem req), .. } => some req
    | _ => none

/-- What the AuctionServer posts for a packet: the worker, and its task. -/
def posts (d : Delivery Ss) : Option (Nat × Task) :=
  ((ofCode ssPktReqPurchaseItem d).map K.unpack).bind fun pkt =>
    (Auction.handleReqPurchaseItem pkt).map fun posted => (posted.1 % writers, posted.2)

def buys : Task → Option AuctionItemInfo
  | .purchaseItem pkt h => some (pkt.purchaseinfo.head h)
  | _ => none

/-- What the peer was given in a step. -/
def given {M : Int16 → Type} (before after : Link M) : List (Delivery M) :=
  after.peer.state.drop before.peer.state.length

/-- Requests for purchases come from the handlers only, and their tasks from the queues only. -/
def foreignPacket : LinkEvent Ss → Bool
  | .offer p _ => p.1 ≠ ssPktReqPurchaseItem
  | _ => true

def foreignTask : PoolEvent Task → Bool
  | .start _ task => (buys task).isNone
  | _ => true

def step (s : PurchasePath Msg Ss) : PurchaseEvent Msg Ss → Option (PurchasePath Msg Ss)
  | .client i e snap now auctionSession =>
    ((s.clients i).step K.client e).bind fun link =>
      let offered := link.offered.drop (s.clients i).offered.length
      let reqs := (given (s.clients i) link).filterMap (relays K snap now (sessionId i) auctionSession)
      if ∀ req ∈ reqs, (K.pack req).isSome then
        some { s with
          clients := Function.update s.clients i link
          asked := s.asked ++
            (offered.filterMap fun p => (asks K (handed p)).bind (·.purchaseinfo.head?)).map (⟨i, ·⟩)
          server := ((reqs.filterMap K.pack).map (⟨ssPktReqPurchaseItem, ·⟩)).foldl (Link.offer K.server) s.server
          forwarded := s.forwarded ++ (reqs.filterMap (·.purchaseinfo.head?)).map (⟨i, ·⟩) }
      else none
  | .server e =>
    if foreignPacket e then
      (s.server.step K.server e).map fun link =>
        { s with server := link, waiting := s.waiting ++ (given s.server link).filterMap (posts K writers) }
    else none
  | .begin worker =>
    (s.waiting.find? (·.1 = worker)).bind fun x =>
      (s.pool.step law Task.process (.start worker x.2)).map fun pool =>
        { s with pool, waiting := s.waiting.eraseP (·.1 = worker) }
  | .pool e =>
    if foreignTask e then (s.pool.step law Task.process e).map fun pool => { s with pool } else none

def asksInfo (d : Delivery Msg) : Option AuctionItemInfo := (asks K d).bind (·.purchaseinfo.head?)

def postsInfo (d : Delivery Ss) : Option AuctionItemInfo := (posts K writers d).bind fun x => buys x.2

/-- The items of the purchases that were started. -/
def started (es : List (PoolEvent Task)) : List AuctionItemInfo :=
  es.flatMap fun e => e.task?.toList.flatMap fun task => (buys task).toList

/-- Each part knows its purchases from the part before it. -/
structure Traced (begun : Server auctionDb) (s : PurchasePath Msg Ss) : Prop where
  clients : ∀ i, ∃ es, run (Link.step K.client) {} es = some (s.clients i)
  server : ∃ es, run (Link.step K.server) {} es = some s.server
  asked : ∀ i, (s.asked.filter (·.client = i)).map PurchaseEntry.info =
    (s.clients i).offered.filterMap fun p => asksInfo K (handed p)
  forwarded : ∀ i, ((s.forwarded.filter (·.client = i)).map PurchaseEntry.info).Sublist
    ((s.clients i).peer.state.filterMap (asksInfo K))
  sent : (s.server.offered.filterMap fun p => postsInfo K writers (handed p)) = s.forwarded.map PurchaseEntry.info
  posted : ∃ es, run (Pool.step law Task.process) (Pool.fresh begun) es = some s.pool ∧
    (s.server.peer.state.filterMap (postsInfo K writers)).Perm (started es ++ s.waiting.filterMap fun x => buys x.2)

end Step

/-! ## The packets -/

variable {K : PacketClasses Msg Ss} {sessionId : Nat → UInt64} {writers : Nat} {law : Call auctionDb → Harm → Bool}

theorem given_eq {M : Int16 → Type} {P : ∀ code, Protobuf (M code)} {l l' : Link M} {e : LinkEvent M}
    (hs : l.step P e = some l') :
    l'.peer.state = l.peer.state ++ given l l' ∧ l'.offered = l.offered ++ l'.offered.drop l.offered.length := by
  have hstate : l.peer.state <+: l'.peer.state := by
    obtain ⟨event, packets, stream, -, -, rfl⟩ | ⟨bytes, -, rfl⟩ | rfl := Link.step_cases hs
    · exact List.prefix_rfl
    · exact deliver_grows _ _
    · rw [Link.error_state]
  have hoffered : l.offered <+: l'.offered := by
    obtain ⟨event, packets, stream, -, -, rfl⟩ | ⟨bytes, -, rfl⟩ | rfl := Link.step_cases hs
    · exact List.prefix_append ..
    · exact List.prefix_rfl
    · exact List.prefix_rfl
  exact ⟨(List.prefix_append_drop hstate), (List.prefix_append_drop hoffered)⟩

theorem relays_info {snap : Option Snapshot} {now : Int} {session : UInt64} {auctionSession : Bool}
    {d : Delivery Msg} {req : Auction.ReqPurchaseItem} (h : relays K snap now session auctionSession d = some req) :
    ∃ info, asksInfo K d = some info ∧ req.purchaseinfo = [info] := by
  obtain ⟨⟨purchaseinfo⟩, hasks, hreq⟩ := Option.bind_eq_some_iff.mp h
  cases purchaseinfo with
  | nil => cases hreq
  | cons info rest =>
    refine ⟨info, by rw [asksInfo, hasks]; rfl, ?_⟩
    have hhandled : handleReqPurchaseItem snap now session auctionSession ⟨info :: rest⟩ =
        if validatePurchase snap now info.listId info.count info.playerId ≠ .pass ∧
            validatePurchase snap now info.listId info.count info.playerId ≠ .unknown then
          .ok { result := true, response := some ⟨false, 0⟩ }
        else .ok ⟨true, if auctionSession then some (.purchaseItem ⟨session.toInt64.toInt, [info]⟩) else none,
          none⟩ := rfl
    by_cases hrejected : validatePurchase snap now info.listId info.count info.playerId ≠ .pass ∧
        validatePurchase snap now info.listId info.count info.playerId ≠ .unknown
    · rw [hhandled, if_pos hrejected] at hreq
      cases hreq
    · rw [hhandled, if_neg hrejected] at hreq
      cases auctionSession with
      | false => cases hreq
      | true => rw [← Option.some.inj hreq]

theorem posts_packed (hK : K.Lawful) {req : Auction.ReqPurchaseItem} {msg : Ss ssPktReqPurchaseItem}
    {info : AuctionItemInfo} (hpack : K.pack req = some msg) (hinfo : req.purchaseinfo = [info]) :
    postsInfo K writers (handed ⟨ssPktReqPurchaseItem, msg⟩) = some info := by
  obtain ⟨session, purchaseinfo⟩ := req
  subst hinfo
  simp [postsInfo, posts, ofCode, handed, hK.packed _ _ hpack, Auction.handleReqPurchaseItem, buys]

theorem posts_foreign {p : Packet Ss} (h : p.1 ≠ ssPktReqPurchaseItem) : postsInfo K writers (handed p) = none := by
  simp [postsInfo, posts, ofCode, handed, h]

theorem entries_of (i j : Nat) (infos : List AuctionItemInfo) :
    ((infos.map (⟨i, ·⟩ : _ → PurchaseEntry)).filter (·.client = j)).map PurchaseEntry.info =
      if i = j then infos else [] := by
  by_cases hij : i = j <;> simp [List.filter_map, Function.comp_def, hij]

theorem filterMap_sublist {α β : Type} {f g : α → Option β} (h : ∀ a b, f a = some b → g a = some b) (l : List α) :
    (l.filterMap f).Sublist (l.filterMap g) := by
  induction l with
  | nil => exact List.Sublist.refl _
  | cons a l ih =>
    cases hf : f a with
    | none =>
      rw [List.filterMap_cons_none hf, List.filterMap_cons]
      split
      · exact ih
      · exact ih.cons _
    | some b =>
      rw [List.filterMap_cons_some hf, List.filterMap_cons_some (h a b hf)]
      exact ih.cons_cons b

theorem subperm_map {α β : Type} (f : α → β) {l l' : List α} (h : l.Subperm l') : (l.map f).Subperm (l'.map f) := by
  obtain ⟨k, hperm, hsub⟩ := h
  exact ⟨k.map f, hperm.map f, hsub.map f⟩

/-! ## One step -/

variable {begun : Server auctionDb} {s s' : PurchasePath Msg Ss}

theorem offers_peer {M : Int16 → Type} {P : ∀ code, Protobuf (M code)} (l : Link M) (packets : List (Packet M)) :
    (packets.foldl (Link.offer P) l).peer = l.peer := by
  induction packets generalizing l with
  | nil => rfl
  | cons p packets ih => exact ih _

theorem client_traced (hK : K.Lawful) (h : Traced K writers law begun s) {i : Nat} {e : LinkEvent Msg}
    {snap : Option Snapshot} {now : Int} {auctionSession : Bool}
    (hs : step K sessionId writers law s (.client i e snap now auctionSession) = some s') :
    Traced K writers law begun s' := by
  obtain ⟨link, hlink, hs⟩ := Option.bind_eq_some_iff.mp hs
  obtain ⟨hpacked, hs⟩ := Option.ite_none_right_eq_some.mp hs
  obtain rfl := Option.some.inj hs
  obtain ⟨hstate, hoffered⟩ := given_eq hlink
  refine ⟨fun j => ?_, ?_, fun j => ?_, fun j => ?_, ?_, ?_⟩
  · by_cases hj : j = i
    · subst hj
      obtain ⟨es, hes⟩ := h.clients j
      refine ⟨es ++ [e], run_append.mpr ⟨_, hes, ?_⟩⟩
      simp [hlink]
    · simpa [hj] using h.clients j
  · obtain ⟨es, hes⟩ := h.server
    exact ⟨_, run_append.mpr ⟨_, hes, Link.offers_run _ _⟩⟩
  · dsimp only
    rw [List.filter_append, List.map_append, h.asked, entries_of]
    by_cases hj : j = i
    · subst hj
      rw [Function.update_self, hoffered, List.filterMap_append, if_pos rfl]
      simp [asksInfo]
    · rw [Function.update_of_ne hj, if_neg (Ne.symm hj), List.append_nil]
  · dsimp only
    rw [List.filter_append, List.map_append, entries_of]
    by_cases hj : j = i
    · subst hj
      rw [Function.update_self, hstate, List.filterMap_append, if_pos rfl, List.filterMap_filterMap]
      refine (h.forwarded j).append (filterMap_sublist (fun d info hd => ?_) _)
      obtain ⟨req, hrelays, hinfo⟩ := Option.bind_eq_some_iff.mp hd
      obtain ⟨info', hasks, hone⟩ := relays_info hrelays
      rw [hone] at hinfo
      rw [hasks, ← hinfo]
      rfl
    · rw [Function.update_of_ne hj, if_neg (Ne.symm hj), List.append_nil]
      exact h.forwarded j
  · dsimp only
    rw [Link.offers_offered, List.filterMap_append, h.sent, List.map_append]
    congr 1
    rw [List.filterMap_map, List.filterMap_filterMap, List.map_map]
    refine Eq.trans (List.filterMap_congr fun req hreq => ?_) (List.map_id _).symm
    obtain ⟨d, -, hrelays⟩ := List.mem_filterMap.mp hreq
    obtain ⟨info, -, hinfo⟩ := relays_info hrelays
    obtain ⟨msg, hmsg⟩ := Option.isSome_iff_exists.mp (hpacked req hreq)
    rw [hmsg, hinfo]
    exact posts_packed hK hmsg hinfo
  · obtain ⟨es, hes, hperm⟩ := h.posted
    refine ⟨es, hes, ?_⟩
    rw [offers_peer]
    exact hperm

/-- A foreign packet asks for no purchase. -/
theorem offered_foreign {l l' : Link Ss} {e : LinkEvent Ss} (hforeign : foreignPacket e = true)
    (hs : l.step K.server e = some l') :
    (l'.offered.filterMap fun p => postsInfo K writers (handed p)) =
      l.offered.filterMap fun p => postsInfo K writers (handed p) := by
  cases e with
  | offer p shared =>
    obtain ⟨stream, -, rfl⟩ := Link.sending_eq hs
    have hp : p.1 ≠ ssPktReqPurchaseItem := by simpa [foreignPacket] using hforeign
    simp [posts_foreign hp]
  | ended | handler | close =>
    obtain ⟨stream, -, rfl⟩ := Link.sending_eq hs
    simp
  | carry bytes =>
    obtain ⟨-, hl'⟩ := Option.ite_none_right_eq_some.mp hs
    rw [← Option.some.inj hl']
  | hangUp => rw [← Option.some.inj hs]

theorem server_traced (h : Traced K writers law begun s) {e : LinkEvent Ss}
    (hs : step K sessionId writers law s (.server e) = some s') : Traced K writers law begun s' := by
  obtain ⟨hforeign, hs⟩ := Option.ite_none_right_eq_some.mp hs
  obtain ⟨link, hlink, rfl⟩ := Option.map_eq_some_iff.mp hs
  obtain ⟨hstate, -⟩ := given_eq hlink
  refine ⟨h.clients, ?_, h.asked, h.forwarded, (offered_foreign hforeign hlink).trans h.sent, ?_⟩
  · obtain ⟨es, hes⟩ := h.server
    exact ⟨es ++ [e], run_append.mpr ⟨_, hes, by simp [hlink]⟩⟩
  · obtain ⟨es, hes, hperm⟩ := h.posted
    refine ⟨es, hes, ?_⟩
    dsimp only
    rw [hstate, List.filterMap_append, List.filterMap_append, List.filterMap_filterMap, ← List.append_assoc]
    exact hperm.append_right _

theorem started_snoc (es : List (PoolEvent Task)) (e : PoolEvent Task) :
    started (es ++ [e]) = started es ++ e.task?.toList.flatMap fun task => (buys task).toList := by
  simp [started]

/-- The oldest task of a worker leaves its queue, and the others stay as they are. -/
theorem taken_perm {waiting : List (Nat × Task)} {worker : Nat} {x : Nat × Task}
    (hfind : waiting.find? (·.1 = worker) = some x) :
    (waiting.filterMap fun x => buys x.2).Perm
      ((buys x.2).toList ++ (waiting.eraseP (·.1 = worker)).filterMap fun x => buys x.2) := by
  obtain ⟨hx, before, after, rfl, hbefore⟩ := List.find?_eq_some_iff_append.mp hfind
  have herase : (before ++ x :: after).eraseP (fun y => decide (y.1 = worker)) = before ++ after := by
    rw [List.eraseP_append_right _ fun y hy => by simpa using hbefore y hy]
    exact congrArg (before ++ ·) (List.eraseP_cons_of_pos hx)
  rw [herase, List.filterMap_append, List.filterMap_append]
  cases hbuys : buys x.2 with
  | none => simp [hbuys]
  | some info => simp [hbuys]

theorem begin_traced (h : Traced K writers law begun s) {worker : Nat}
    (hs : step K sessionId writers law s (.begin worker) = some s') : Traced K writers law begun s' := by
  obtain ⟨x, hfind, hs⟩ := Option.bind_eq_some_iff.mp hs
  obtain ⟨pool, hpool, rfl⟩ := Option.map_eq_some_iff.mp hs
  refine ⟨h.clients, h.server, h.asked, h.forwarded, h.sent, ?_⟩
  obtain ⟨es, hes, hperm⟩ := h.posted
  refine ⟨es ++ [.start worker x.2], run_append.mpr ⟨_, hes, by simp [hpool]⟩, hperm.trans ?_⟩
  rw [started_snoc, List.append_assoc]
  refine List.Perm.append_left _ ((taken_perm hfind).trans (List.Perm.of_eq ?_))
  simp [PoolEvent.task?]

theorem pool_traced (h : Traced K writers law begun s) {e : PoolEvent Task}
    (hs : step K sessionId writers law s (.pool e) = some s') : Traced K writers law begun s' := by
  obtain ⟨hforeign, hs⟩ := Option.ite_none_right_eq_some.mp hs
  obtain ⟨pool, hpool, rfl⟩ := Option.map_eq_some_iff.mp hs
  refine ⟨h.clients, h.server, h.asked, h.forwarded, h.sent, ?_⟩
  obtain ⟨es, hes, hperm⟩ := h.posted
  have hnone : (e.task?.toList.flatMap fun task => (buys task).toList) = [] := by
    cases e with
    | start i task => simpa [PoolEvent.task?, foreignTask] using hforeign
    | call | finish | tick => rfl
  refine ⟨es ++ [e], run_append.mpr ⟨_, hes, by simp [hpool]⟩, ?_⟩
  rw [started_snoc, hnone, List.append_nil]
  exact hperm

theorem step_traced (hK : K.Lawful) (h : Traced K writers law begun s) {e : PurchaseEvent Msg Ss}
    (hs : step K sessionId writers law s e = some s') : Traced K writers law begun s' := by
  cases e with
  | client => exact client_traced hK h hs
  | server => exact server_traced h hs
  | begin => exact begin_traced h hs
  | pool => exact pool_traced h hs

/-! ## Every run -/

def fresh (Msg Ss : Int16 → Type) (begun : Server auctionDb) : PurchasePath Msg Ss := { pool := Pool.fresh begun }

theorem fresh_traced : Traced K writers law begun (fresh Msg Ss begun) where
  clients _ := ⟨[], rfl⟩
  server := ⟨[], rfl⟩
  asked _ := rfl
  forwarded _ := List.Sublist.refl _
  sent := rfl
  posted := ⟨[], rfl, List.Perm.refl _⟩

theorem traced_run (hK : K.Lawful) {es : List (PurchaseEvent Msg Ss)} {t : PurchasePath Msg Ss}
    (h : run (step K sessionId writers law) (fresh Msg Ss begun) es = some t) : Traced K writers law begun t :=
  run_invariant (fun _ _ _ hbefore hs => step_traced hK hbefore hs) fresh_traced h

/-- A client's purchases were forwarded in the order in which it asked, so no request was forwarded twice. -/
theorem Traced.forwarded_asked (hK : K.Lawful) (h : Traced K writers law begun s)
    (hfits : ∀ i, ∀ p ∈ (s.clients i).offered, (K.client p.1).byteSizeLong p.2 ≤ 32767) :
    s.forwarded.Subperm s.asked := by
  rw [List.subperm_ext_iff]
  intro x _
  obtain ⟨es, hes⟩ := h.clients x.client
  have hdelivered := (Link.linked_run hK.client hes).delivered hK.client (hfits x.client)
  have hof : ∀ l : List PurchaseEntry,
      l.count x = ((l.filter (·.client = x.client)).map PurchaseEntry.info).count x.info := by
    intro l
    induction l with
    | nil => rfl
    | cons y l ih =>
      obtain ⟨client, info⟩ := y
      obtain ⟨client', info'⟩ := x
      by_cases hc : client = client' <;> simp [List.count_cons, ih, hc]
  have hgiven := hdelivered.sublist.filterMap (asksInfo K)
  rw [List.filterMap_map] at hgiven
  rw [hof, hof, h.asked]
  exact ((h.forwarded x.client).trans hgiven).count_le _

/-- What was started was forwarded. If nothing is left between the servers, it is the same. -/
theorem Traced.started_forwarded (hK : K.Lawful) (h : Traced K writers law begun s)
    (hfits : ∀ p ∈ s.server.offered, (K.server p.1).byteSizeLong p.2 ≤ 32767) :
    ∃ es, run (Pool.step law Task.process) (Pool.fresh begun) es = some s.pool ∧
      (started es).Subperm (s.forwarded.map PurchaseEntry.info) ∧
      (Link.Settled s.server → s.waiting = [] → (started es).Perm (s.forwarded.map PurchaseEntry.info)) := by
  obtain ⟨es, hes, hperm⟩ := h.posted
  obtain ⟨fs, hfs⟩ := h.server
  have hlinked := Link.linked_run hK.server hfs
  refine ⟨es, hes, ?_, fun hsettled hwaiting => ?_⟩
  · have hgiven := (hlinked.delivered hK.server hfits).sublist.filterMap (postsInfo K writers)
    rw [List.filterMap_map] at hgiven
    rw [← h.sent]
    exact ((List.sublist_append_left ..).subperm.trans hperm.symm.subperm).trans hgiven.subperm
  · rw [hwaiting, List.filterMap_nil, List.append_nil, (hlinked.settled hK.server hsettled hfits).state,
      List.filterMap_map] at hperm
    rw [← h.sent]
    exact hperm.symm

/-- The items of the purchases that were run. -/
def purchased (q : Pool auctionDb Task (Option Auction.Response)) : List AuctionItemInfo :=
  q.finished.filterMap fun x => buys x.task

theorem answers_purchased (q : Pool auctionDb Task (Option Auction.Response)) :
    ((Auction.answers q).map Prod.fst).Sublist (purchased q) := by
  rw [Auction.answers, List.map_filterMap, purchased]
  refine filterMap_sublist (fun x info h => ?_) _
  obtain ⟨a, ha, rfl⟩ := Option.map_eq_some_iff.mp h
  unfold Auction.bought at ha
  split at ha
  · rename_i htask _
    rw [htask, ← Option.some.inj ha]
    rfl
  · cases ha

theorem purchased_started {es : List (PoolEvent Task)} {q : Pool auctionDb Task (Option Auction.Response)}
    (hrun : run (Pool.step law Task.process) (Pool.fresh begun) es = some q) (hquiet : Auction.Quiescent q) :
    (purchased q).Perm (started es) := by
  rw [purchased, List.filterMap_eq_flatMap_toList]
  exact finished_perm hrun hquiet fun task => (buys task).toList

/-- Any number of clients, any packets on their connections and between the servers, which may break off
anywhere, any tasks of other kinds, and failures of the database in every way that MySQL documents. Once no
worker runs a task, every receipt of a purchase is one that a client asked for, and no request has two. When
nothing is left between the servers or in a queue, what was forwarded was run, once each. -/
theorem receipts_were_asked_for (hrollback : law .rollback .refused = false) (hcommit : law .commit .replyLost = false)
    (hK : K.Lawful) {db : Database} {now next : Int} {es : List (PurchaseEvent Msg Ss)} {t : PurchasePath Msg Ss}
    (hrun : run (step K sessionId writers law) (fresh Msg Ss (Server.idle db now next)) es = some t)
    (hclients : ∀ i, ∀ p ∈ (t.clients i).offered, (K.client p.1).byteSizeLong p.2 ≤ 32767)
    (hserver : ∀ p ∈ t.server.offered, (K.server p.1).byteSizeLong p.2 ≤ 32767) (hquiet : Auction.Quiescent t.pool) :
    (∃ rows, t.pool.server.db.auctionReceipts = db.auctionReceipts ++ rows ∧
      ((rows.filter fun r => r.receiptType = 3).map fun r => (r.ownerPlayerId, r.sourceListingId, r.quantity)).Subperm
        (t.asked.map fun x => (x.info.playerId, x.info.listId, some x.info.count))) ∧
    (Link.Settled t.server → t.waiting = [] → (purchased t.pool).Perm (t.forwarded.map PurchaseEntry.info)) := by
  have h := traced_run hK hrun
  obtain ⟨fs, hfs, hsub, hall⟩ := h.started_forwarded hK hserver
  have hpurchased := purchased_started hfs hquiet
  refine ⟨?_, fun hsettled hwaiting => hpurchased.trans (hall hsettled hwaiting)⟩
  obtain ⟨rows, hrows, hbought, -⟩ := Auction.receipts_booked hrollback hcommit hfs hquiet
  refine ⟨rows, hrows, ?_⟩
  have hasked : ((Auction.answers t.pool).map Prod.fst).Subperm (t.asked.map PurchaseEntry.info) :=
    ((answers_purchased t.pool).subperm.trans (hpurchased.subperm.trans hsub)).trans
      (subperm_map _ (h.forwarded_asked hK hclients))
  have hmap := subperm_map (fun info : AuctionItemInfo => (info.playerId, info.listId, some info.count)) hasked
  rw [List.map_map, List.map_map] at hmap
  exact hbought.subperm.trans hmap

/-- `{1: {1: 1, 2: 8, 5: 2}}` and `{1: 5, 2: {1: 1, 2: 8, 5: 2}}`. -/
def sampleMsg : Encoded := ⟨[10, 6, 8, 1, 16, 8, 40, 2], by decide⟩
def sampleForwarded : Encoded := ⟨[8, 5, 18, 6, 8, 1, 16, 8, 40, 2], by decide⟩

/-- The classes, as far as the sample run needs them. -/
def sampleClasses : PacketClasses (fun _ => Encoded) (fun _ => Encoded) where
  client _ := encoded
  server _ := encoded
  purchase msg := ⟨if msg.val = sampleMsg.val then [sampleInfo] else []⟩
  pack req := if req.sessionId = 5 ∧ req.purchaseinfo = [sampleInfo] then some sampleForwarded else none
  unpack msg := if msg.val = sampleForwarded.val then ⟨5, [sampleInfo]⟩ else ⟨0, []⟩

theorem sampleClasses_lawful : sampleClasses.Lawful where
  client _ := encoded_lawful
  server _ := encoded_lawful
  packed req msg h := by
    obtain ⟨sessionId, purchaseinfo⟩ := req
    obtain ⟨⟨rfl, rfl⟩, hmsg⟩ := Option.ite_none_right_eq_some.mp h
    rw [← Option.some.inj hmsg]
    rfl

/-- A client buys two units of listing 1. -/
def purchaseEvents : List (PurchaseEvent (fun _ => Encoded) (fun _ => Encoded)) :=
  [.client 0 (.offer ⟨pktReqPurchaseItem, sampleMsg⟩ false) none 0 true,
    .client 0 (.carry [8, 0, 166, 15, 10, 6]) none 0 true, .client 0 (.carry [8, 1, 16, 8, 40, 2]) none 0 true,
    .server (.carry [10, 0, 6, 0, 8, 5, 18, 6, 8, 1, 16, 8, 40, 2]), .server (.ended 0 false), .server (.handler 0),
    .begin 0] ++ List.replicate 13 (.pool (.call 0 none)) ++ [.pool (.finish 0)]

/-- The purchase has got through, and the one receipt of a buyer is that of its client. -/
theorem receipts_were_asked_for_sample : ∃ t,
    run (step sampleClasses (fun _ => 5) 1 mysqlLaw) (fresh _ _ (Server.idle sampleDb 0 2)) purchaseEvents = some t ∧
    t.asked = [⟨0, sampleInfo⟩] ∧
    (∃ rows, t.pool.server.db.auctionReceipts = rows ∧
      (rows.map fun r => (r.receiptType, r.ownerPlayerId, r.quantity)) = [(3, 8, some 2), (1, 7, none)] ∧
      ((rows.filter fun r => r.receiptType = 3).map fun r => (r.ownerPlayerId, r.sourceListingId, r.quantity)).Subperm
        [(8, 1, some 2)]) ∧
    (purchased t.pool).Perm [sampleInfo] := by
  obtain ⟨t, ht, hasked, hforwarded, hwaiting, hserver, hclients, hsettled, hquiet, hreceipts⟩ : ∃ t,
      run (step sampleClasses (fun _ => 5) 1 mysqlLaw) (fresh _ _ (Server.idle sampleDb 0 2)) purchaseEvents = some t ∧
      t.asked = [⟨0, sampleInfo⟩] ∧ t.forwarded = [⟨0, sampleInfo⟩] ∧ t.waiting = [] ∧
      t.server.offered = [⟨ssPktReqPurchaseItem, sampleForwarded⟩] ∧
      (∀ i, (t.clients i).offered = if i = 0 then [⟨pktReqPurchaseItem, sampleMsg⟩] else []) ∧ Link.Settled t.server ∧
      Auction.Quiescent t.pool ∧
      (t.pool.server.db.auctionReceipts.map fun r => (r.receiptType, r.ownerPlayerId, r.quantity)) =
        [(3, 8, some 2), (1, 7, none)] :=
    ⟨_, rfl, rfl, rfl, rfl, rfl, fun i => by cases i <;> rfl, ⟨rfl, by decide, rfl, rfl⟩,
      fun i => by cases i <;> rfl, rfl⟩
  have hsmall : ∀ i, ∀ p ∈ (t.clients i).offered, encoded.byteSizeLong p.2 ≤ 32767 := by
    intro i p hp
    rw [hclients] at hp
    by_cases hi : i = 0
    · rw [if_pos hi, List.mem_singleton] at hp
      subst hp
      decide
    · rw [if_neg hi] at hp
      cases hp
  have hsmall' : ∀ p ∈ t.server.offered, encoded.byteSizeLong p.2 ≤ 32767 := by
    rw [hserver]
    decide
  obtain ⟨⟨rows, hrows, hsub⟩, hall⟩ :=
    receipts_were_asked_for rfl rfl sampleClasses_lawful ht hsmall hsmall' hquiet
  obtain rfl : t.pool.server.db.auctionReceipts = rows := hrows
  rw [hasked] at hsub
  have hpurchased := hall hsettled hwaiting
  rw [hforwarded] at hpurchased
  exact ⟨t, ht, hasked, ⟨_, rfl, hreceipts, hsub⟩, hpurchased⟩

end PurchasePath

end Game
