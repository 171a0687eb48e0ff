import PicoOS.Apps.Message
import PicoOS.Lib.Accounts
import PicoOS.Lib.Run

/-!
# Multicast sockets

The socket table of `wifi.c` over lwIP. A call holds the lwIP lock for as long as it looks at
the table, and lwIP calls the receive hook under that lock. The lock is owned by a core: it does
not keep out a second thread of the same core, which can find the same slot free. A call is one
step here, so what follows is about calls that are made one after another.
-/
namespace PicoOS.Net

open Accounts Apps

def wifiErrArg : Int := -1
def wifiErrNosock : Int := -2
def wifiErrNomem : Int := -3
def wifiErrBind : Int := -4
def wifiErrJoin : Int := -5
def wifiErrSend : Int := -6

def wifiMcastMaxSockets : Nat := 2

/-- An index of `g_mcast`. -/
abbrev Sock := Fin wifiMcastMaxSockets

/-- `ip4_addr_t`. -/
abbrev Ip4Addr := UInt32

/-! ### lwIP -/

/-- What is set of an allocated `udp_pcb`: its port, and the argument of its receive hook. -/
structure Udp where
  port : Option UInt16
  recv : Option Sock

/-- The allocated PCBs, and how often each group is in use. -/
structure Lwip (ρ : Type) where
  pcb : ρ → Option Udp
  uses : Ip4Addr → Nat

/-- What lwIP has for an open: a PCB, whether the port is free, and whether the group can be joined. -/
structure Answers (ρ : Type) where
  offer : Option ρ
  bind : Bool
  join : Bool

namespace Lwip

variable {ρ : Type} [DecidableEq ρ] (l : Lwip ρ) (p : ρ)

def boot : Lwip ρ := ⟨fun _ => none, fun _ => 0⟩

/-- A PCB that is allocated is not given out again. -/
def udpNew (offer : Option ρ) : Option (ρ × Lwip ρ) :=
  match offer with
  | none => none
  | some p =>
    match l.pcb p with
    | some _ => none
    | none => some (p, { l with pcb := Function.update l.pcb p (some ⟨none, none⟩) })

def udpBind (port : UInt16) (ok : Bool) : Option (Lwip ρ) :=
  if ok then
    some { l with pcb := Function.update l.pcb p ((l.pcb p).map fun u => { u with port := some port }) }
  else none

def udpRecv (sock : Sock) : Lwip ρ :=
  { l with pcb := Function.update l.pcb p ((l.pcb p).map fun u => { u with recv := some sock }) }

def udpRemove : Lwip ρ := { l with pcb := Function.update l.pcb p none }

omit [DecidableEq ρ] in
/-- `igmp_joingroup` counts the uses of a group. -/
def igmpJoingroup (group : Ip4Addr) (ok : Bool) : Option (Lwip ρ) :=
  if ok then some { l with uses := Function.update l.uses group (l.uses group + 1) } else none

omit [DecidableEq ρ] in
def igmpLeavegroup (group : Ip4Addr) : Lwip ρ :=
  { l with uses := Function.update l.uses group (l.uses group - 1) }

end Lwip

/-! ### wifi.c -/

/-- `mcast_sock_t`; free without a PCB. -/
structure McastSock (ρ κ χ : Type) where
  pcb : Option ρ
  group : Ip4Addr
  port : UInt16
  cb : Option κ
  ctx : Option χ

/-- lwIP and `g_mcast`. -/
structure Mcast (ρ κ χ : Type) where
  lwip : Lwip ρ
  sock : Sock → McastSock ρ κ χ

/-- A call of an application's callback. -/
structure Received (κ χ : Type) where
  cb : κ
  buf : List UInt8
  len : Nat
  src : Ip4Addr
  ctx : Option χ

/-- The arguments of `wifi_mcast_open`: `group` is what `ip4addr_aton` makes of the string, none where
it is not an address. -/
structure Opening (κ χ : Type) where
  group : Option Ip4Addr
  port : UInt16
  cb : Option κ
  ctx : Option χ

namespace Mcast

variable {ρ κ χ : Type} [DecidableEq ρ]

def boot : Mcast ρ κ χ := ⟨.boot, fun _ => ⟨none, 0, 0, none, none⟩⟩

variable (s : Mcast ρ κ χ)

/-- The handle is an index of the table. -/
def index (sock : Int) : Option Sock :=
  if h : sock.toNat < wifiMcastMaxSockets ∧ 0 ≤ sock then some ⟨sock.toNat, h.1⟩ else none

omit [DecidableEq ρ] in
def findFree : Option Sock :=
  (List.finRange wifiMcastMaxSockets).find? fun i => (s.sock i).pcb.isNone

/-- `wifi_mcast_open`; `up` is whether `g_state` is `WIFI_STATE_UP`. -/
def wifiMcastOpen (o : Opening κ χ) (up : Bool) (answers : Answers ρ) : Mcast ρ κ χ × Int :=
  match o.group with
  | none => (s, wifiErrArg)
  | some grp =>
    if !up then (s, wifiErrArg)
    else
      match s.findFree with
      | none => (s, wifiErrNosock)
      | some sock =>
        match s.lwip.udpNew answers.offer with
        | none => (s, wifiErrNomem)
        | some (pcb, l) =>
          match l.udpBind pcb o.port answers.bind with
          | none => ({ s with lwip := l.udpRemove pcb }, wifiErrBind)
          | some l =>
            match l.igmpJoingroup grp answers.join with
            | none => ({ s with lwip := l.udpRemove pcb }, wifiErrJoin)
            | some l =>
              -- the slot is written last: until here it is still free
              ({ lwip := l.udpRecv pcb sock
                 sock := Function.update s.sock sock ⟨some pcb, grp, o.port, o.cb, o.ctx⟩ }, sock)

omit [DecidableEq ρ] in
/-- `wifi_mcast_send`: the result, and the datagram with its group and port where one has been sent.
`pbuf` is whether there is a buffer, and `ok` whether `udp_sendto` accepts it. -/
def wifiMcastSend (sock : Int) (data : Option (List UInt8)) (pbuf ok : Bool) :
    Int × Option (Ip4Addr × UInt16 × List UInt8) :=
  match index sock, data with
  | some i, some data =>
    match (s.sock i).pcb with
    | none => (wifiErrArg, none)
    | some _ =>
      if !pbuf then (wifiErrNomem, none)
      else if ok then (0, some ((s.sock i).group, (s.sock i).port, data))
      else (wifiErrSend, none)
  | _, _ => (wifiErrArg, none)

/-- `wifi_mcast_close`. -/
def wifiMcastClose (sock : Int) : Mcast ρ κ χ :=
  match index sock with
  | none => s
  | some i =>
    match (s.sock i).pcb with
    | none => s
    | some pcb =>
      -- the group and the port stay in the slot
      { lwip := (s.lwip.igmpLeavegroup (s.sock i).group).udpRemove pcb
        sock := Function.update s.sock i { s.sock i with pcb := none, cb := none, ctx := none } }

omit [DecidableEq ρ] in
/-- `mcast_recv`; `buf` is what its array holds at the call, and the rest of it is
`Apps.mcastRecv`. -/
def mcastRecv (ms : Sock) (p : Option (List UInt8)) (src : Ip4Addr) (buf : List UInt8) :
    Option (Received κ χ) :=
  match p with
  | none => none
  | some p =>
    let len := if p.length < wifiMcastMaxPayload then p.length else wifiMcastMaxPayload
    -- a closed socket has no callback
    (Apps.mcastRecv p buf).bind fun buf =>
      (s.sock ms).cb.map fun cb => ⟨cb, buf, len, src, (s.sock ms).ctx⟩

omit [DecidableEq ρ] in
/-- lwIP has a datagram for a PCB: it calls the receive hook, if there is one. -/
def arrive (pcb : ρ) (p : Option (List UInt8)) (src : Ip4Addr) (buf : List UInt8) :
    Option (Received κ χ) :=
  (s.lwip.pcb pcb).bind fun u => u.recv.bind fun ms => s.mcastRecv ms p src buf

end Mcast

/-- A call that changes the table. -/
inductive McastOp (ρ κ χ : Type) where
  | opens (o : Opening κ χ) (up : Bool) (answers : Answers ρ)
  | closes (sock : Int)

namespace Mcast

variable {ρ κ χ : Type} [DecidableEq ρ]

def step (s : Mcast ρ κ χ) : McastOp ρ κ χ → Mcast ρ κ χ
  | .opens o up answers => (s.wifiMcastOpen o up answers).1
  | .closes sock => s.wifiMcastClose sock

/-! ### What a call does -/

variable {s s' : Mcast ρ κ χ} {i : Sock} {p : ρ}

theorem index_sock (i : Sock) : index i = some i := by
  have fits : (i : Int).toNat < wifiMcastMaxSockets ∧ (0 : Int) ≤ i := by
    have := i.isLt
    omega
  rw [index, dif_pos fits]
  rfl

omit [DecidableEq ρ] in
theorem findFree_idle (free : s.findFree = some i) : (s.sock i).pcb = none := by
  have idle := List.find?_some free
  simpa using idle

/-- A PCB that is taken and removed again leaves lwIP as it was. -/
theorem udpNew_cases {l l' : Lwip ρ} {offer : Option ρ} (given : l.udpNew offer = some (p, l')) :
    l.pcb p = none ∧ l' = { l with pcb := Function.update l.pcb p (some ⟨none, none⟩) } ∧
      l'.udpRemove p = l := by
  unfold Lwip.udpNew at given
  split at given
  next => cases given
  next q =>
    split at given
    next => cases given
    next fresh =>
      cases given
      refine ⟨fresh, rfl, ?_⟩
      rw [Lwip.udpRemove, Function.update_idem, ← fresh, Function.update_eq_self]

/-- A new socket, with the PCB `p`, in the group `grp`. -/
def opened (s : Mcast ρ κ χ) (o : Opening κ χ) (grp : Ip4Addr) (p : ρ) (i : Sock) : Mcast ρ κ χ where
  lwip :=
    { pcb := Function.update s.lwip.pcb p (some ⟨some o.port, some i⟩)
      uses := Function.update s.lwip.uses grp (s.lwip.uses grp + 1) }
  sock := Function.update s.sock i ⟨some p, grp, o.port, o.cb, o.ctx⟩

/-- An open changes nothing, or gives a free socket a PCB of its own. -/
theorem wifiMcastOpen_cases (s : Mcast ρ κ χ) (o : Opening κ χ) (up : Bool) (answers : Answers ρ) :
    (s.wifiMcastOpen o up answers).1 = s ∧ (s.wifiMcastOpen o up answers).2 < 0 ∨
      ∃ grp p i, o.group = some grp ∧ (s.sock i).pcb = none ∧ s.lwip.pcb p = none ∧
        s.wifiMcastOpen o up answers = (s.opened o grp p i, (i : Int)) := by
  have arg : wifiErrArg < 0 := by decide
  have nosock : wifiErrNosock < 0 := by decide
  have nomem : wifiErrNomem < 0 := by decide
  have noBind : wifiErrBind < 0 := by decide
  have noJoin : wifiErrJoin < 0 := by decide
  unfold wifiMcastOpen
  split
  next => exact .inl ⟨rfl, arg⟩
  next grp address =>
    split
    next => exact .inl ⟨rfl, arg⟩
    next =>
      split
      next => exact .inl ⟨rfl, nosock⟩
      next i free =>
        split
        next => exact .inl ⟨rfl, nomem⟩
        next p l given =>
          obtain ⟨fresh, rfl, back⟩ := udpNew_cases given
          -- both failures behind `udp_new` remove the PCB
          cases bind : answers.bind with
          | false =>
            refine .inl ⟨?_, noBind⟩
            exact congrArg (Mcast.mk · s.sock) back
          | true =>
            cases join : answers.join with
            | false =>
              refine .inl ⟨?_, noJoin⟩
              apply congrArg (Mcast.mk · s.sock)
              rw [← back]
              simp [Lwip.udpRemove]
            | true =>
              refine .inr ⟨grp, p, i, address, findFree_idle free, fresh, ?_⟩
              simp [Lwip.udpBind, Lwip.igmpJoingroup, Lwip.udpRecv, opened]

/-- A socket that is given up, with its PCB `p`. -/
def closed (s : Mcast ρ κ χ) (p : ρ) (i : Sock) : Mcast ρ κ χ where
  lwip :=
    { pcb := Function.update s.lwip.pcb p none
      uses := Function.update s.lwip.uses (s.sock i).group (s.lwip.uses (s.sock i).group - 1) }
  sock := Function.update s.sock i { s.sock i with pcb := none, cb := none, ctx := none }

theorem wifiMcastClose_cases (s : Mcast ρ κ χ) (sock : Int) :
    s.wifiMcastClose sock = s ∨
      ∃ p i, index sock = some i ∧ (s.sock i).pcb = some p ∧
        s.wifiMcastClose sock = s.closed p i := by
  unfold wifiMcastClose
  split
  next => exact .inl rfl
  next i at_ =>
    split
    next => exact .inl rfl
    next p mine => exact .inr ⟨p, i, at_, mine, rfl⟩

/-! ### The account -/

/-- The sockets that are in a group. -/
def users (s : Mcast ρ κ χ) (group : Ip4Addr) : Finset Sock :=
  Finset.univ.filter fun i => (s.sock i).pcb.isSome = true ∧ (s.sock i).group = group

/-- Each PCB belongs to one socket, and is set up for it; each use of a group is one socket's. -/
structure Inv (s : Mcast ρ κ χ) : Prop where
  account : Account (fun p u => s.lwip.pcb p = some u) (fun i => (s.sock i).pcb)
    fun i u => u = ⟨some (s.sock i).port, some i⟩
  uses : ∀ group, s.lwip.uses group = (s.users group).card

omit [DecidableEq ρ] in
theorem mem_users {group : Ip4Addr} :
    i ∈ s.users group ↔ (s.sock i).pcb.isSome = true ∧ (s.sock i).group = group := by
  rw [users, Finset.mem_filter, and_iff_right (Finset.mem_univ i)]

omit [DecidableEq ρ] in
theorem Inv.boot : (boot : Mcast ρ κ χ).Inv := by
  constructor
  case account =>
    constructor
    · intro i p mine
      cases mine
    · intro i j p mine
      cases mine
    · intro p u held
      cases held
  case uses =>
    intro group
    have nobody : (Mcast.boot : Mcast ρ κ χ).users group = ∅ := by
      apply Finset.eq_empty_of_forall_notMem
      intro i member
      cases (mem_users.mp member).1
    rw [nobody]
    rfl

/-- A new socket is one more user of its group. -/
theorem users_opened (idle : (s.sock i).pcb = none) (o : Opening κ χ) (grp group : Ip4Addr) :
    (s.opened o grp p i).users group =
      if group = grp then insert i (s.users group) else s.users group := by
  ext j
  by_cases here : j = i
  · subst here
    split
    next same => simp [mem_users, opened, same]
    next other => simp [mem_users, opened, idle, Ne.symm other]
  · have kept : (s.opened o grp p i).sock j = s.sock j := Function.update_of_ne here ..
    split
    next => rw [Finset.mem_insert, or_iff_right here, mem_users, mem_users, kept]
    next => rw [mem_users, mem_users, kept]

theorem users_closed (group : Ip4Addr) :
    (s.closed p i).users group = (s.users group).erase i := by
  ext j
  rw [Finset.mem_erase]
  by_cases here : j = i
  · subst here
    simp [mem_users, closed]
  · have kept : (s.closed p i).sock j = s.sock j := Function.update_of_ne here ..
    rw [mem_users, mem_users, kept, and_iff_right here]

theorem Inv.opened (inv : s.Inv) (o : Opening κ χ) (grp : Ip4Addr) (idle : (s.sock i).pcb = none)
    (fresh : s.lwip.pcb p = none) : (s.opened o grp p i).Inv := by
  constructor
  case account =>
    have owns : (fun j => ((s.opened o grp p i).sock j).pcb) =
        Function.update (fun j => (s.sock j).pcb) i (some p) := by
      funext j
      by_cases here : j = i
      · subst here
        simp [Mcast.opened]
      · simp [Mcast.opened, here]
    rw [owns]
    -- lwIP gives out a PCB only when it is not allocated, so no other socket has it
    apply inv.account.take (n := ⟨some o.port, some i⟩) idle
    · intro u held
      rw [fresh] at held
      cases held
    · intro q u
      by_cases here : q = p
      · subst here
        simp [Mcast.opened, fresh, eq_comm]
      · simp [Mcast.opened, here]
    · simp [Mcast.opened]
    · intro j other
      simp [Mcast.opened, Function.update_of_ne other]
  case uses =>
    intro group
    rw [users_opened idle]
    split
    next same =>
      subst same
      have new : i ∉ s.users group := by
        intro member
        have inUse := (mem_users.mp member).1
        rw [idle] at inUse
        cases inUse
      rw [Finset.card_insert_of_notMem new, ← inv.uses]
      exact Function.update_self ..
    next other =>
      rw [← inv.uses]
      exact Function.update_of_ne other ..

theorem Inv.closed (inv : s.Inv) (mine : (s.sock i).pcb = some p) : (s.closed p i).Inv := by
  constructor
  case account =>
    have owns : (fun j => ((s.closed p i).sock j).pcb) =
        Function.update (fun j => (s.sock j).pcb) i none := by
      funext j
      by_cases here : j = i
      · subst here
        simp [Mcast.closed]
      · simp [Mcast.closed, here]
    rw [owns]
    apply inv.account.give mine
    · intro q u
      by_cases here : q = p
      · subst here
        simp [Mcast.closed]
      · simp [Mcast.closed, here]
    · intro j other
      simp [Mcast.closed, Function.update_of_ne other]
  case uses =>
    intro group
    rw [users_closed]
    -- the use that is given back is this socket's own, so the count was not zero
    by_cases same : group = (s.sock i).group
    · have member : i ∈ s.users group := mem_users.mpr ⟨by rw [mine]; rfl, same.symm⟩
      rw [Finset.card_erase_of_mem member, ← inv.uses, same]
      exact Function.update_self ..
    · have foreign : i ∉ s.users group := fun member => same (mem_users.mp member).2.symm
      rw [Finset.erase_eq_of_notMem foreign, ← inv.uses]
      exact Function.update_of_ne same ..

theorem Inv.step (inv : s.Inv) (op : McastOp ρ κ χ) : (s.step op).Inv := by
  cases op with
  | opens o up answers =>
    rcases s.wifiMcastOpen_cases o up answers with ⟨same, _⟩ | ⟨grp, p, i, _, idle, fresh, made⟩
    · rw [Mcast.step, same]
      exact inv
    · rw [Mcast.step, made]
      exact inv.opened o grp idle fresh
  | closes sock =>
    rcases s.wifiMcastClose_cases sock with same | ⟨p, i, _, mine, made⟩
    · rw [Mcast.step, same]
      exact inv
    · rw [Mcast.step, made]
      exact inv.closed mine

theorem Inv.run (ops : List (McastOp ρ κ χ)) : (Run.exec Mcast.step .boot ops).Inv :=
  Run.exec_invariant (fun _ op inv => inv.step op) .boot ops

/-! ### Handles -/

theorem index_eq {sock : Int} (at_ : index sock = some i) : sock = i := by
  unfold index at at_
  split at at_
  next fits =>
    cases at_
    exact (Int.toNat_of_nonneg fits.2).symm
  next => cases at_

/-- An open socket stays as it is for as long as nobody closes it. -/
theorem step_sock (mine : (s.sock i).pcb = some p) {op : McastOp ρ κ χ} (other : op ≠ .closes i) :
    (s.step op).sock i = s.sock i := by
  cases op with
  | opens o up answers =>
    rcases s.wifiMcastOpen_cases o up answers with ⟨same, _⟩ | ⟨grp, q, j, _, idle, _, made⟩
    · rw [Mcast.step, same]
    · have ne : i ≠ j := by
        rintro rfl
        rw [idle] at mine
        cases mine
      rw [Mcast.step, made]
      exact Function.update_of_ne ne ..
  | closes sock =>
    rcases s.wifiMcastClose_cases sock with same | ⟨q, j, at_, _, made⟩
    · rw [Mcast.step, same]
    · have ne : i ≠ j := by
        rintro rfl
        rw [index_eq at_] at other
        exact other rfl
      rw [Mcast.step, made]
      exact Function.update_of_ne ne ..

theorem run_sock (mine : (s.sock i).pcb = some p) (later : List (McastOp ρ κ χ))
    (never : .closes i ∉ later) : (Run.exec Mcast.step s later).sock i = s.sock i := by
  -- on the calls: each one finds the socket open and is not its close
  induction later generalizing s with
  | nil => rfl
  | cons op later ih =>
    obtain ⟨other, never⟩ := List.ne_and_not_mem_of_not_mem_cons never
    have same := step_sock mine (Ne.symm other)
    rw [Run.exec_cons, ih (by rw [same, mine]) never, same]

/-! ### What a socket does -/

omit [DecidableEq ρ] in
/-- A datagram is passed on with its first `WIFI_MCAST_MAX_PAYLOAD` bytes, as a string. -/
theorem mcastRecv_some (s : Mcast ρ κ χ) (i : Sock) (p : List UInt8) (src : Ip4Addr)
    {buf : List UInt8} (sized : buf.length = wifiMcastMaxPayload + 1) :
    ∃ rest, s.mcastRecv i (some p) src buf = (s.sock i).cb.map fun cb =>
      ⟨cb, p.take wifiMcastMaxPayload ++ 0 :: rest, min p.length wifiMcastMaxPayload, src,
        (s.sock i).ctx⟩ := by
  obtain ⟨rest, filled⟩ := mcastRecv_take p sized
  have len : (if p.length < wifiMcastMaxPayload then p.length else wifiMcastMaxPayload) =
      min p.length wifiMcastMaxPayload := by
    split <;> omega
  refine ⟨rest, ?_⟩
  simp only [mcastRecv, filled, Option.bind_some, len]

omit [DecidableEq ρ] in
theorem Inv.arrive (inv : s.Inv) (mine : (s.sock i).pcb = some p) (bytes : Option (List UInt8))
    (src : Ip4Addr) (buf : List UInt8) :
    s.arrive p bytes src buf = s.mcastRecv i bytes src buf := by
  obtain ⟨u, held, rfl⟩ := inv.account.backed i p mine
  rw [Mcast.arrive, held]
  rfl

/-- What a table of sockets has to be. Its PCBs and uses of groups are those of the open sockets, a
failed open has taken nothing, and a datagram is for the socket whose PCB it has come to. -/
structure Sound (s : Mcast ρ κ χ) : Prop where
  pcb : ∀ p u, s.lwip.pcb p = some u ↔
    ∃ i, (s.sock i).pcb = some p ∧ u = ⟨some (s.sock i).port, some i⟩
  apart : ∀ i j p, (s.sock i).pcb = some p → (s.sock j).pcb = some p → i = j
  uses : ∀ group, s.lwip.uses group = (s.users group).card
  nothing : (∀ i, (s.sock i).pcb = none) → s.lwip = .boot
  failed : ∀ o up answers, (s.wifiMcastOpen o up answers).2 < 0 →
    (s.wifiMcastOpen o up answers).1 = s
  stray : ∀ p bytes src buf, (∀ i, (s.sock i).pcb ≠ some p) → s.arrive p bytes src buf = none

/-- The socket serves its owner: it sends to the group it has been opened with, and hands what comes
to its PCB to the callback. -/
def Serves (s : Mcast ρ κ χ) (i : Sock) (o : Opening κ χ) : Prop :=
  ∃ grp p, o.group = some grp ∧ (s.sock i).pcb = some p ∧
    (∀ data, s.wifiMcastSend i (some data) true true = (0, some (grp, o.port, data))) ∧
    ∀ bytes src buf, buf.length = wifiMcastMaxPayload + 1 →
      ∃ rest, s.arrive p (some bytes) src buf = o.cb.map fun cb =>
        ⟨cb, bytes.take wifiMcastMaxPayload ++ 0 :: rest, min bytes.length wifiMcastMaxPayload,
          src, o.ctx⟩

theorem Inv.sound (inv : s.Inv) : s.Sound := by
  constructor
  case pcb =>
    intro p u
    constructor
    · intro held
      obtain ⟨i, mine⟩ := inv.account.owned p u held
      obtain ⟨v, held', rfl⟩ := inv.account.backed i p mine
      cases held.symm.trans held'
      exact ⟨i, mine, rfl⟩
    · -- what an open socket's PCB is set to is no other value
      rintro ⟨i, mine, rfl⟩
      obtain ⟨v, held, rfl⟩ := inv.account.backed i p mine
      exact held
  case apart => exact inv.account.apart
  case uses => exact inv.uses
  case nothing =>
    intro idle
    have pcbs : s.lwip.pcb = fun _ => none := by
      funext p
      apply Option.eq_none_iff_forall_ne_some.mpr
      exact inv.account.nothing idle p
    have uses : s.lwip.uses = fun _ => 0 := by
      funext group
      rw [inv.uses, Finset.card_eq_zero]
      apply Finset.eq_empty_of_forall_notMem
      intro i member
      have inUse := (mem_users.mp member).1
      rw [idle i] at inUse
      cases inUse
    exact congrArg₂ Lwip.mk pcbs uses
  case failed =>
    intro o up answers negative
    rcases s.wifiMcastOpen_cases o up answers with ⟨same, _⟩ | ⟨grp, p, i, _, _, _, made⟩
    · exact same
    · rw [made] at negative
      have := Int.natCast_nonneg i.val
      exact absurd negative (by dsimp only; omega)
  case stray =>
    intro p bytes src buf nobody
    cases held : s.lwip.pcb p with
    | none => rw [Mcast.arrive, held, Option.bind_none]
    | some u =>
      obtain ⟨i, mine⟩ := inv.account.owned p u held
      exact absurd mine (nobody i)

/-- A handle is good from its open to its close. -/
theorem Inv.serves (inv : s.Inv) {o : Opening κ χ} {up : Bool} {answers : Answers ρ}
    (handle : (s.wifiMcastOpen o up answers).2 = i) {later : List (McastOp ρ κ χ)}
    (never : .closes i ∉ later) :
    (Run.exec Mcast.step (s.wifiMcastOpen o up answers).1 later).Serves i o := by
  rcases s.wifiMcastOpen_cases o up answers with ⟨_, negative⟩ | ⟨grp, p, j, given, idle, fresh, made⟩
  · -- a handle is not an error code
    rw [handle] at negative
    have := Int.natCast_nonneg i.val
    omega
  · rw [made] at handle ⊢
    obtain rfl : j = i := Fin.ext (Int.ofNat.inj handle)
    have now : (s.opened o grp p j).sock j = ⟨some p, grp, o.port, o.cb, o.ctx⟩ :=
      Function.update_self ..
    have kept := run_sock (p := p) (by rw [now]) later never
    rw [now] at kept
    have after : (Run.exec Mcast.step (s.opened o grp p j) later).Inv :=
      Run.exec_invariant (fun _ op inv => inv.step op) (inv.opened o grp idle fresh) later
    refine ⟨grp, p, given, by rw [kept], fun data => ?_, fun bytes src buf sized => ?_⟩
    · simp [wifiMcastSend, index_sock, kept]
    · obtain ⟨rest, passed⟩ := mcastRecv_some _ j bytes src sized
      refine ⟨rest, ?_⟩
      rw [after.arrive (i := j) (by rw [kept]), passed, kept]

/-- After any opens and closes, one after another, whatever lwIP has answered: no PCB and no use of a
group is lost, and each handle serves the open that returned it until it is closed. -/
theorem sockets_sound (ops : List (McastOp ρ κ χ)) :
    let s := Run.exec Mcast.step .boot ops
    s.Sound ∧ ∀ o up answers later (i : Sock), (s.wifiMcastOpen o up answers).2 = i →
      .closes i ∉ later → (Run.exec Mcast.step (s.wifiMcastOpen o up answers).1 later).Serves i o := by
  have inv := Inv.run ops
  exact ⟨inv.sound, fun _ _ _ _ _ handle never => inv.serves handle never⟩

end Mcast

end PicoOS.Net
