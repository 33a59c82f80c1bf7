import Firo.Lib.Run

/-! The addresses of a receiver in `bip47/paymentchannel.cpp`: a counter of used addresses, and two
lists that are filled when they are asked for. `markAddressUsed` moves addresses to the end of the
used ones although these may not be filled after a reload, and `setMyUsedAddressNumber` leaves the
next addresses of the old counter. -/
namespace Firo.Bip47

open Firo.Lib List

def AddressLookaheadNumber : ℕ := 10

inductive Side where
  | sender
  | receiver
deriving DecidableEq

/-- The lists are not serialized, so a channel is created and reloaded without them. -/
structure CPaymentChannel (Address Key : Type) where
  side : Side
  /-- `uint32_t`. -/
  usedAddressCount : ℕ := 0
  usedAddresses : List (Address × Key) := []
  nextAddresses : List (Address × Key) := []

inductive ChannelCall (Address : Type) where
  | markAddressUsed (address : Address)
  | setMyUsedAddressNumber (number : ℕ)
  | generateMyUsedAddresses
  | generateMyNextAddresses

variable {Address Key : Type}

section

-- What the loop derives for an index from the keys of the channel, which never change.
variable (derived : ℕ → Address × Key)

/-- Both bounds become `uint32_t`. -/
def generateMySecretAddresses (fromAddr uptoAddr : ℕ) : List (Address × Key) :=
  let first := fromAddr % 2 ^ 32
  (List.range' first (uptoAddr % 2 ^ 32 - first)).map derived

variable (c : CPaymentChannel Address Key)

/-- The addresses that a receiver is missing of `number` many from `start` on. -/
def fill (addresses : List (Address × Key)) (start number : ℕ) : List (Address × Key) :=
  if c.side = .receiver ∧ addresses.length < number then
    addresses ++ generateMySecretAddresses derived (start + addresses.length) (start + number)
  else addresses

/-- The list that is returned is that of the new state. -/
def generateMyUsedAddresses : CPaymentChannel Address Key :=
  { c with usedAddresses := fill derived c c.usedAddresses 0 c.usedAddressCount }

def generateMyNextAddresses : CPaymentChannel Address Key :=
  { c with
    nextAddresses :=
      fill derived c c.nextAddresses c.usedAddressCount AddressLookaheadNumber }

def window (start number : ℕ) : List (Address × Key) :=
  (List.range' start number).map derived

/-- Both lists are the beginnings of their windows. -/
structure InWindows : Prop where
  receiver : c.side = .receiver
  bound : c.usedAddressCount + AddressLookaheadNumber < 2 ^ 32
  used : ∃ n ≤ c.usedAddressCount, c.usedAddresses = window derived 0 n
  next : ∃ n ≤ AddressLookaheadNumber, c.nextAddresses = window derived c.usedAddressCount n

variable [DecidableEq Address]

def findByAddress (address : Address) : Option ℕ :=
  c.nextAddresses.findIdx? fun e => e.1 = address

/-- The first addresses up to the one that is found become used. -/
def useNext (iter : ℕ) : CPaymentChannel Address Key :=
  { c with
    usedAddressCount := (c.usedAddressCount + iter) % 2 ^ 32
    usedAddresses := c.usedAddresses ++ c.nextAddresses.take iter
    nextAddresses := c.nextAddresses.drop iter }

def markAddressUsed (notificationAddress address : Address) : Bool × CPaymentChannel Address Key :=
  if address = notificationAddress then (true, c)
  else if c.side = .receiver then
    match findByAddress c address with
    | none => (false, c)
    | some i => (true, generateMyNextAddresses derived (useNext c (i + 1)))
  else (false, c)

def setMyUsedAddressNumber (number : ℕ) : ℕ × CPaymentChannel Address Key :=
  let count := if c.usedAddressCount < number then number % 2 ^ 32 else c.usedAddressCount
  (count, { c with usedAddressCount := count })

def channelStep (notificationAddress : Address) :
    ChannelCall Address → Option (CPaymentChannel Address Key)
  | .markAddressUsed address => some (markAddressUsed derived c notificationAddress address).2
  | .setMyUsedAddressNumber number => some (setMyUsedAddressNumber c number).2
  | .generateMyUsedAddresses => some (generateMyUsedAddresses derived c)
  | .generateMyNextAddresses => some (generateMyNextAddresses derived c)

/-- A next address is marked only when all used ones are there, and the counter is raised only when
there are no next addresses; the indices stay below `2 ^ 32`. -/
def KeepsWindows (notificationAddress : Address) : ChannelCall Address → Prop
  | .markAddressUsed address => address ≠ notificationAddress →
    ∀ i, findByAddress c address = some i → c.usedAddresses.length = c.usedAddressCount ∧
      c.usedAddressCount + (i + 1) + AddressLookaheadNumber < 2 ^ 32
  | .setMyUsedAddressNumber number => c.usedAddressCount < number →
    c.nextAddresses = [] ∧ number + AddressLookaheadNumber < 2 ^ 32
  | _ => True

end

variable {derived : ℕ → Address × Key} {c : CPaymentChannel Address Key}

lemma window_append (derived : ℕ → Address × Key) (start m n : ℕ) :
    window derived start m ++ window derived (start + m) n =
      window derived start (m + n) := by
  unfold window
  rw [← List.map_append, List.range'_append_1]

lemma length_window (derived : ℕ → Address × Key) (start n : ℕ) :
    (window derived start n).length = n := by
  rw [window, List.length_map, List.length_range']

lemma fill_window (hside : c.side = .receiver) {start number n : ℕ} (hn : n ≤ number)
    (hbound : start + number < 2 ^ 32) : fill derived c (window derived start n) start number =
      window derived start number := by
  unfold fill
  rw [length_window]
  split
  case isTrue =>
    unfold generateMySecretAddresses
    rw [Nat.mod_eq_of_lt hbound, Nat.mod_eq_of_lt (by omega)]
    change _ ++ window derived (start + n) _ = _
    rw [window_append]
    congr 1
    omega
  case isFalse hfull =>
    congr 1
    have : ¬ n < number := fun hlt => hfull ⟨hside, hlt⟩
    omega

namespace InWindows

lemma generateMyUsedAddresses (h : InWindows derived c) :
    (generateMyUsedAddresses derived c).usedAddresses =
      window derived 0 c.usedAddressCount := by
  obtain ⟨n, hn, hused⟩ := h.used
  have hbound := h.bound
  unfold Bip47.generateMyUsedAddresses
  dsimp only
  rw [hused]
  exact fill_window h.receiver hn (by omega)

lemma generateMyNextAddresses (h : InWindows derived c) :
    (generateMyNextAddresses derived c).nextAddresses =
      window derived c.usedAddressCount AddressLookaheadNumber := by
  obtain ⟨n, hn, hnext⟩ := h.next
  unfold Bip47.generateMyNextAddresses
  dsimp only
  rw [hnext]
  exact fill_window h.receiver hn h.bound

lemma useNext (h : InWindows derived c) {i : ℕ} (hi : i < c.nextAddresses.length)
    (hused : c.usedAddresses.length = c.usedAddressCount)
    (hbound : c.usedAddressCount + (i + 1) + AddressLookaheadNumber < 2 ^ 32) :
    InWindows derived (useNext c (i + 1)) := by
  obtain ⟨m, -, hm⟩ := h.used
  obtain ⟨n, hn, hnext⟩ := h.next
  rw [hm, length_window] at hused
  rw [hnext, length_window] at hi
  have hcount : (c.usedAddressCount + (i + 1)) % 2 ^ 32 = c.usedAddressCount + (i + 1) :=
    Nat.mod_eq_of_lt (by omega)
  unfold Bip47.useNext
  rw [hcount, hm, hused, hnext]
  refine ⟨h.receiver, hbound, ⟨_, le_rfl, ?_⟩, n - (i + 1), by omega, ?_⟩
  · have htake : (window derived c.usedAddressCount n).take (i + 1) =
        window derived (0 + c.usedAddressCount) (i + 1) := by
      rw [window, ← List.map_take, List.take_range'_of_length_ge hi, zero_add, window]
    dsimp only
    rw [htake, window_append]
  · unfold window
    dsimp only
    rw [← List.map_drop, List.drop_range', mul_one]

lemma step [DecidableEq Address] (h : InWindows derived c) {notificationAddress} {call}
    (hkeeps : KeepsWindows c notificationAddress call) {c'}
    (hstep : channelStep derived c notificationAddress call = some c') : InWindows derived c' := by
  have hfilled : ∀ {c}, InWindows derived c →
      InWindows derived (Bip47.generateMyNextAddresses derived c) :=
    fun h => ⟨h.receiver, h.bound, h.used, _, le_rfl, h.generateMyNextAddresses⟩
  cases call with
  | markAddressUsed address =>
    cases hstep
    unfold markAddressUsed
    split_ifs with hnotification hside
    · exact h
    · cases hfind : findByAddress c address with
      | none => exact h
      | some i =>
        obtain ⟨hused, hbound⟩ := hkeeps hnotification i hfind
        have hi : i < c.nextAddresses.length := (findIdx?_eq_some_iff_getElem.mp hfind).1
        exact hfilled (h.useNext hi hused hbound)
    · exact h
  | setMyUsedAddressNumber number =>
    cases hstep
    unfold setMyUsedAddressNumber
    dsimp only
    split
    case isTrue hlt =>
      obtain ⟨hnext, hbound⟩ := hkeeps hlt
      obtain ⟨n, hn, hused⟩ := h.used
      rw [Nat.mod_eq_of_lt (by omega)]
      exact ⟨h.receiver, hbound, ⟨n, hn.trans hlt.le, hused⟩, 0, Nat.zero_le _, hnext⟩
    case isFalse => exact h
  | generateMyUsedAddresses =>
    cases hstep
    exact ⟨h.receiver, h.bound, ⟨_, le_rfl, h.generateMyUsedAddresses⟩, h.next⟩
  | generateMyNextAddresses =>
    cases hstep
    exact hfilled h

end InWindows

variable [DecidableEq Address]

/-- In every run of a receiver, created with the counter 0 or reloaded with any other, whose calls
keep the windows: both lists are exactly their windows. -/
theorem address_windows_exact (derived) (notificationAddress : Address)
    (usedAddressCount : ℕ) (hbound : usedAddressCount + AddressLookaheadNumber < 2 ^ 32)
    (c : CPaymentChannel Address Key)
    (hreach : Reach (channelStep derived · notificationAddress) (KeepsWindows · notificationAddress)
      { side := .receiver, usedAddressCount := usedAddressCount } c) :
    (generateMyUsedAddresses derived c).usedAddresses =
        (List.range c.usedAddressCount).map derived ∧
      (generateMyNextAddresses derived c).nextAddresses =
        (range' c.usedAddressCount AddressLookaheadNumber).map derived := by
  have h : InWindows derived c := by
    refine hreach.invariant ?_ fun _ _ _ h hkeeps hstep => h.step hkeeps hstep
    exact ⟨rfl, hbound, ⟨0, Nat.zero_le _, rfl⟩, 0, Nat.zero_le _, rfl⟩
  rw [range_eq_range']
  exact ⟨h.generateMyUsedAddresses, h.generateMyNextAddresses⟩

/-- After a reload with three used addresses, both lists are filled before the second of the next
addresses is marked. -/
theorem address_windows_exact_reloaded : ∃ c : CPaymentChannel ℕ Unit, c.usedAddressCount = 5 ∧
    (generateMyUsedAddresses (·, ()) c).usedAddresses = (List.range 5).map (·, ()) ∧
    (generateMyNextAddresses (·, ()) c).nextAddresses = (range' 5 10).map (·, ()) := by
  have hmarked : ∀ i, some 1 = some i → 3 = 3 ∧ 3 + (i + 1) + AddressLookaheadNumber < 2 ^ 32 := by
    rintro i ⟨⟩
    decide
  have h := address_windows_exact (·, ()) 1000 3 (by decide) _ (.step (.markAddressUsed 4)
    (.step .generateMyNextAddresses (.step .generateMyUsedAddresses .init trivial rfl) trivial rfl)
    (fun _ => hmarked) rfl)
  exact ⟨_, rfl, h⟩

/-- After a reload with one used address, the first of the next addresses is marked: the used
addresses are then twice that of index 1. After the counter of a new channel is raised to 5, the
next addresses are still those from index 0 on. -/
theorem address_windows_wrong : (∃ c : CPaymentChannel ℕ Unit,
      [ChannelCall.generateMyNextAddresses, .markAddressUsed 1].foldlM
        (channelStep (·, ()) · 1000) { side := .receiver, usedAddressCount := 1 } = some c ∧
      (generateMyUsedAddresses (·, ()) c).usedAddresses ≠
        (List.range c.usedAddressCount).map (·, ())) ∧
    ∃ c : CPaymentChannel ℕ Unit,
      [ChannelCall.generateMyNextAddresses, .setMyUsedAddressNumber 5].foldlM
        (channelStep (·, ()) · 1000) { side := .receiver } = some c ∧
      (generateMyNextAddresses (·, ()) c).nextAddresses ≠
        (range' c.usedAddressCount AddressLookaheadNumber).map (·, ()) :=
  ⟨⟨_, rfl, by decide⟩, _, rfl, by decide⟩

end Firo.Bip47
