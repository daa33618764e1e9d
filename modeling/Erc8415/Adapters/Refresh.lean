import Erc8415.Adapters.EthereumChain
import Erc8415.Foundation.LabelledRun
import Erc8415.Proof.Profile

/-! # Refreshing the Ethereum adapter

`refresh` is suspended twice, at its request for the finalized block and at its
request for the application root of that block. Any number of calls may be
suspended at once. Each resumes on the adapter as the others have left it, with
whatever the remote node answers, in any order.
-/

namespace Erc8415

structure JsonRpcRequest where
  method : String
  params : List JsValue

/-- What a request settles to: a result, or an error the transport throws. -/
abbrev RpcReply := Except Thrown JsValue

/-- The contract and the encoded getter call that return the application root. -/
structure ApplicationRoot where
  contract : String
  callData : String

/-- The character class `[0-9a-f]` of a pattern that ignores case. -/
def isHexDigit (c : Char) : Bool := isLowerHex c || ('A' ≤ c && c ≤ 'F')

/-- `/^0x(?:0|[1-9a-f][0-9a-f]*)$/i`. -/
def isQuantity (text : String) : Bool :=
  match text.toList with
  | '0' :: x :: first :: rest =>
      (x == 'x' || x == 'X') && isHexDigit first && rest.all isHexDigit &&
        (first != '0' || rest.isEmpty)
  | _ => false

namespace EthereumChain

/-! ## The two halves of a refresh -/

def blockRequest : JsonRpcRequest :=
  ⟨"eth_getBlockByNumber", [.string "finalized", .boolean false]⟩

/-- The root is read at the block by its hash, which has to be canonical. -/
def rootRequest (root : ApplicationRoot) (hash : String) : JsonRpcRequest :=
  ⟨"eth_call", [
    .object [("to", .string root.contract), ("data", .string root.callData)],
    .object [("blockHash", .string hash), ("requireCanonical", .boolean true)]]⟩

/-- The height and the hash of a finalized block. -/
def readBlock (block : JsValue) : Except Thrown (Int × String) :=
  if block.isObject = false then .error (.error "eth_getBlockByNumber returned no block")
  else
    match (block.get "number").asString.filter isQuantity,
        (block.get "hash").asString.filter isBytes32 with
    | some number, some hash =>
        match BigIntText.parse number with
        | some height => .ok (height, hash)
        | none => .error (.error s!"Cannot convert {number} to a BigInt")
    | _, _ => .error (.error "finalized block is missing a valid number or hash")

/-- `known !== undefined && known !== value`. -/
def contradicts (known : Option String) (value : String) : Bool :=
  match known with
  | some value' => value' != value
  | none => false

/-- Take in the root read at a block, unless the adapter has moved past the block or
knows it otherwise. -/
def acceptRoot (a : EthereumChain) (height : Int) (hash : String) (root : JsValue) :
    Except Thrown EthereumChain :=
  match root.asString.filter isBytes32 with
  | none => .error (.error "application root getter must return exactly bytes32")
  | some root =>
      if height < a.finalizedHeight then
        .error (.error s!"finalized head moved backwards: {height} < {a.finalizedHeight}")
      else if contradicts (a.hashes.get (toString height)) (toLowerCase hash) ||
          contradicts (a.roots.get (toString height)) (toLowerCase root) then
        .error (.error "finalized application root changed")
      else
        .ok { a with
          finalizedHeight := height
          hashes := a.hashes.set (toString height) (toLowerCase hash)
          roots := a.roots.set (toString height) (toLowerCase root) }

end EthereumChain

/-! ## Overlapping calls -/

/-- Where a call of `refresh` stands, with its local variables. -/
inductive RefreshCall where
  | awaitingBlock
  | awaitingRoot (block : JsValue) (height : Int) (hash : String)
  | returned (block : JsValue) (height : Int) (hash : String) (root : JsValue)
  | threw (error : Thrown)

namespace RefreshCall

open EthereumChain

/-- The request a call is suspended at. -/
def pending (root : ApplicationRoot) : RefreshCall → Option JsonRpcRequest
  | awaitingBlock => some blockRequest
  | awaitingRoot _ _ hash => some (rootRequest root hash)
  | returned .. => none
  | threw _ => none

/-- Resume a call with the reply to its request. One that has ended takes no reply. -/
def resume (a : EthereumChain) : RefreshCall → RpcReply → EthereumChain × RefreshCall
  | awaitingBlock, .error e => (a, threw e)
  | awaitingBlock, .ok block =>
      match readBlock block with
      | .error e => (a, threw e)
      | .ok (height, hash) => (a, awaitingRoot block height hash)
  | awaitingRoot .., .error e => (a, threw e)
  | awaitingRoot block height hash, .ok root =>
      match acceptRoot a height hash root with
      | .error e => (a, threw e)
      | .ok a' => (a', returned block height hash root)
  | ended, _ => (a, ended)

/-- The block a call has read, with what it read from it. -/
def block? : RefreshCall → Option (JsValue × Int × String)
  | awaitingRoot block height hash => some (block, height, hash)
  | returned block height hash _ => some (block, height, hash)
  | _ => none

end RefreshCall

/-- An adapter with every call of `refresh` made on it, in the order they were made. -/
structure Refreshing where
  chain : EthereumChain
  calls : List RefreshCall

/-- What can happen next: a call is made, a reply reaches one of the calls, or an
admission advances a height. -/
inductive RefreshEvent where
  | refresh
  | reply (call : Nat) (reply : RpcReply)
  | advance (tokenId height : Int)

namespace Refreshing

open EthereumChain

def initial : Refreshing := ⟨EthereumChain.new, []⟩

def step (s : Refreshing) : RefreshEvent → Refreshing
  | .refresh => { s with calls := s.calls ++ [.awaitingBlock] }
  | .reply i reply =>
      match s.calls[i]? with
      | none => s
      | some call =>
          let (chain, call') := call.resume s.chain reply
          ⟨chain, s.calls.set i call'⟩
  | .advance tokenId height =>
      match s.chain.advanceHeight tokenId height with
      | .error _ => s
      | .ok chain => { s with chain := chain }

end Refreshing

/-! ## One reply -/

namespace EthereumChain

theorem contradicts_eq_false {known : Option String} {value : String} :
    contradicts known value = false ↔ ∀ value', known = some value' → value' = value := by
  cases known <;> simp [contradicts]

/-- What an accepted root does: the head moves to its block, and neither the hash nor
the root of that block was known otherwise. -/
theorem acceptRoot_eq_ok {a a' : EthereumChain} {height : Int} {hash : String} {root : JsValue} :
    acceptRoot a height hash root = .ok a' ↔
      ∃ text, root = .string text ∧ isBytes32 text = true ∧ a.finalizedHeight ≤ height ∧
        (∀ known, a.hashes.get (toString height) = some known → known = toLowerCase hash) ∧
        (∀ known, a.roots.get (toString height) = some known → known = toLowerCase text) ∧
        a' = { a with
          finalizedHeight := height
          hashes := a.hashes.set (toString height) (toLowerCase hash)
          roots := a.roots.set (toString height) (toLowerCase text) } := by
  unfold acceptRoot
  cases root with
  | string text =>
      by_cases hword : isBytes32 text = true
      · have hfilter : (JsValue.string text).asString.filter isBytes32 = some text := by
          simp [JsValue.asString, Option.filter, hword]
        simp only [hfilter, JsValue.string.injEq]
        split_ifs with hrewind hknown
        · simp only [false_iff]
          rintro ⟨_, rfl, _, hle, _⟩
          omega
        · simp only [false_iff]
          rintro ⟨_, rfl, _, _, hhash, hroot, _⟩
          rw [contradicts_eq_false.mpr hhash, contradicts_eq_false.mpr hroot] at hknown
          cases hknown
        · rw [Bool.or_eq_true, not_or, Bool.not_eq_true, Bool.not_eq_true] at hknown
          rw [Except.ok.injEq]
          constructor
          · rintro rfl
            exact ⟨text, rfl, hword, Int.not_lt.mp hrewind, contradicts_eq_false.mp hknown.1,
              contradicts_eq_false.mp hknown.2, rfl⟩
          · rintro ⟨_, rfl, _, _, _, _, rfl⟩
            rfl
      · have hfilter : (JsValue.string text).asString.filter isBytes32 = none := by
          simp [JsValue.asString, Option.filter, hword]
        simp only [hfilter, reduceCtorEq, JsValue.string.injEq, false_iff]
        rintro ⟨_, rfl, hword', _⟩
        exact hword hword'
  | _ => simp [JsValue.asString]

end EthereumChain

namespace RefreshCall

open EthereumChain

/-- What a reply does to the adapter and to the call it reaches. -/
inductive Resumed (a : EthereumChain) : RefreshCall → EthereumChain → RefreshCall → Prop
  | stopped {call : RefreshCall} (e : Thrown)
      (hopen : ∀ block height hash root, call ≠ returned block height hash root) :
      Resumed a call a (threw e)
  | asked {block : JsValue} {height : Int} {hash : String}
      (hblock : readBlock block = .ok (height, hash)) :
      Resumed a awaitingBlock a (awaitingRoot block height hash)
  | accepted {a' : EthereumChain} {block : JsValue} {height : Int} {hash : String} {root : JsValue}
      (haccept : acceptRoot a height hash root = .ok a') :
      Resumed a (awaitingRoot block height hash) a' (returned block height hash root)
  | ended {call : RefreshCall} : Resumed a call a call

theorem resume_resumed (a : EthereumChain) (call : RefreshCall) (reply : RpcReply) :
    Resumed a call (call.resume a reply).1 (call.resume a reply).2 := by
  cases call with
  | awaitingBlock =>
      cases reply with
      | error e => exact .stopped e (by simp)
      | ok block =>
          simp only [resume]
          cases hblock : readBlock block with
          | error e => exact .stopped e (by simp)
          | ok read => exact .asked hblock
  | awaitingRoot block height hash =>
      cases reply with
      | error e => exact .stopped e (by simp)
      | ok root =>
          simp only [resume]
          cases haccept : acceptRoot a height hash root with
          | error e => exact .stopped e (by simp)
          | ok a' => exact .accepted haccept
  | returned block height hash root => exact .ended
  | threw e => exact .ended

end RefreshCall

/-! ## What every interleaving keeps -/

namespace Refreshing

open EthereumChain

/-- A height's root and hash are those of one call that returned: its block reply carried
the height and the hash, and its second reply the root. -/
def Recorded (s : Refreshing) (height : Int) (root : String) : Prop :=
  ∃ block hash text, RefreshCall.returned block height hash (.string text) ∈ s.calls ∧
    readBlock block = .ok (height, hash) ∧
    s.chain.hashes.get (toString height) = some (toLowerCase hash) ∧ root = toLowerCase text

structure Sound (s : Refreshing) : Prop where
  blocks : ∀ call ∈ s.calls, ∀ block height hash, call.block? = some (block, height, hash) →
    readBlock block = .ok (height, hash)
  paired : ∀ k, (s.chain.roots.get k).isSome = (s.chain.hashes.get k).isSome
  recorded : ∀ k root, s.chain.roots.get k = some root →
    ∃ height, k = toString height ∧ height ≤ s.chain.finalizedHeight ∧ s.Recorded height root

theorem Sound.initial : Refreshing.initial.Sound where
  blocks := by simp [Refreshing.initial]
  paired := by simp [Refreshing.initial, EthereumChain.new]
  recorded := by simp [Refreshing.initial, EthereumChain.new]

/-- What has been accepted stays. -/
structure Keeps (a a' : EthereumChain) : Prop where
  finalizedHeight : a.finalizedHeight ≤ a'.finalizedHeight
  roots : ∀ k root, a.roots.get k = some root → a'.roots.get k = some root

theorem Keeps.refl (a : EthereumChain) : Keeps a a := ⟨Int.le_refl _, fun _ _ h => h⟩

theorem Keeps.trans {a a' a'' : EthereumChain} (h : Keeps a a') (h' : Keeps a' a'') :
    Keeps a a'' :=
  ⟨Int.le_trans h.finalizedHeight h'.finalizedHeight,
    fun k root hk => h'.roots k root (h.roots k root hk)⟩

theorem mem_set_of_ne {calls : List RefreshCall} {i : Nat} {call call' other : RefreshCall}
    (hi : calls[i]? = some call) (hother : other ∈ calls) (hne : other ≠ call) :
    other ∈ calls.set i call' := by
  obtain ⟨j, hj⟩ := List.mem_iff_getElem?.mp hother
  refine List.mem_iff_getElem?.mpr ⟨j, ?_⟩
  rw [List.getElem?_set_ne, hj]
  rintro rfl
  rw [hi, Option.some.injEq] at hj
  exact hne hj.symm

/-- Evidence stays evidence while its call is in the list and the hash of its height
is known. -/
theorem Recorded.mono {s t : Refreshing} {height : Int} {root : String}
    (h : s.Recorded height root)
    (hcalls : ∀ block hash read, .returned block height hash read ∈ s.calls →
      .returned block height hash read ∈ t.calls)
    (hhashes : t.chain.hashes.get (toString height) = s.chain.hashes.get (toString height)) :
    t.Recorded height root := by
  obtain ⟨block, hash, text, hcall, hblock, hhash, hroot⟩ := h
  exact ⟨block, hash, text, hcalls _ _ _ hcall, hblock, hhashes.trans hhash, hroot⟩

theorem Sound.reply {s : Refreshing} (h : s.Sound) {i : Nat} {call call' : RefreshCall}
    {chain : EthereumChain} (hi : s.calls[i]? = some call)
    (hresumed : RefreshCall.Resumed s.chain call chain call') :
    Sound ⟨chain, s.calls.set i call'⟩ ∧ Keeps s.chain chain := by
  have hmem : call ∈ s.calls := List.mem_of_getElem? hi
  cases hresumed with
  | stopped e hopen =>
      refine ⟨⟨fun other hother block height hash hblock => ?_, h.paired, fun k root hk => ?_⟩,
        Keeps.refl _⟩
      · rcases List.mem_or_eq_of_mem_set hother with hold | rfl
        · exact h.blocks other hold block height hash hblock
        · cases hblock
      · obtain ⟨height, rfl, hle, hrecorded⟩ := h.recorded k root hk
        exact ⟨height, rfl, hle, hrecorded.mono
          (fun _ _ _ hcall => mem_set_of_ne hi hcall fun heq => hopen _ _ _ _ heq.symm) rfl⟩
  | asked hblock =>
      refine ⟨⟨fun other hother block height hash hread => ?_, h.paired, fun k root hk => ?_⟩,
        Keeps.refl _⟩
      · rcases List.mem_or_eq_of_mem_set hother with hold | rfl
        · exact h.blocks other hold block height hash hread
        · cases hread
          exact hblock
      · obtain ⟨height, rfl, hle, hrecorded⟩ := h.recorded k root hk
        exact ⟨height, rfl, hle, hrecorded.mono
          (fun _ _ _ hcall => mem_set_of_ne hi hcall (by simp)) rfl⟩
  | @accepted _ block height hash root haccept =>
      have hread := h.blocks _ hmem block height hash rfl
      obtain ⟨text, rfl, _, hforward, hhash, hroot, rfl⟩ := acceptRoot_eq_ok.mp haccept
      refine ⟨⟨fun other hother block' height' hash' hblock' => ?_, fun k => ?_,
        fun k root hk => ?_⟩, hforward, fun k root hk => ?_⟩
      · rcases List.mem_or_eq_of_mem_set hother with hold | rfl
        · exact h.blocks other hold block' height' hash' hblock'
        · cases hblock'
          exact hread
      · simp only [InsertionMap.get_set]
        split
        next => rfl
        next => exact h.paired k
      · simp only [InsertionMap.get_set] at hk
        split at hk
        next heq =>
          -- The height this call read: the call itself is the evidence now.
          cases hk
          refine ⟨height, heq.symm, Int.le_refl _, block, hash, text, ?_, hread, by simp, rfl⟩
          exact List.mem_set (List.getElem?_eq_some_iff.mp hi).1 _
        next hne =>
          obtain ⟨height', rfl, hle, hrecorded⟩ := h.recorded k root hk
          refine ⟨height', rfl, Int.le_trans hle hforward, hrecorded.mono
            (fun _ _ _ hcall => mem_set_of_ne hi hcall (by simp)) ?_⟩
          exact InsertionMap.get_set_of_ne hne
      · simp only [InsertionMap.get_set]
        split
        next heq =>
          subst heq
          rw [hroot root hk]
        next => exact hk
  | ended =>
      have hset : s.calls.set i call = s.calls := by
        obtain ⟨hlt, hget⟩ := List.getElem?_eq_some_iff.mp hi
        rw [← hget, List.set_getElem_self]
      rw [hset]
      exact ⟨h, Keeps.refl _⟩

theorem Sound.step {s : Refreshing} (h : s.Sound) (event : RefreshEvent) :
    (s.step event).Sound ∧ Keeps s.chain (s.step event).chain := by
  cases event with
  | refresh =>
      refine ⟨⟨fun call hcall block height hash hblock => ?_, h.paired, fun k root hk => ?_⟩,
        Keeps.refl _⟩
      · rcases List.mem_append.mp hcall with hold | hnew
        · exact h.blocks call hold block height hash hblock
        · rw [List.mem_singleton.mp hnew] at hblock
          cases hblock
      · obtain ⟨height, rfl, hle, hrecorded⟩ := h.recorded k root hk
        exact ⟨height, rfl, hle,
          hrecorded.mono (fun _ _ _ hcall => List.mem_append_left _ hcall) rfl⟩
  | reply i reply =>
      simp only [Refreshing.step]
      cases hi : s.calls[i]? with
      | none => exact ⟨h, Keeps.refl _⟩
      | some call => exact h.reply hi (RefreshCall.resume_resumed s.chain call reply)
  | advance tokenId height =>
      simp only [Refreshing.step]
      cases hadvance : s.chain.advanceHeight tokenId height with
      | error message => exact ⟨h, Keeps.refl _⟩
      | ok chain =>
          simp only [EthereumChain.advanceHeight] at hadvance
          split at hadvance
          next => cases hadvance
          next =>
            cases hadvance
            exact ⟨⟨h.blocks, h.paired, h.recorded⟩, Int.le_refl _, fun _ _ hk => hk⟩

theorem Sound.run {s : Refreshing} (h : s.Sound) (events : List RefreshEvent) :
    (LabelledRun.run Refreshing.step s events).Sound :=
  LabelledRun.run_invariant Refreshing.step Sound (fun _ event hs => (hs.step event).1) h events

theorem Sound.run_keeps {s : Refreshing} (h : s.Sound) (events : List RefreshEvent) :
    Keeps s.chain (LabelledRun.run Refreshing.step s events).chain :=
  LabelledRun.run_relates Refreshing.step Sound (fun s t => Keeps s.chain t.chain)
    (fun s => Keeps.refl s.chain) (fun _ _ _ hst htu => hst.trans htu)
    (fun _ event hs => (hs.step event).1) (fun _ event hs => (hs.step event).2) h events

/-- A call that has thrown left the adapter as it found it. -/
theorem chain_of_threw {s : Refreshing} {i : Nat} {reply : RpcReply} {e : Thrown}
    (hthrew : (s.step (.reply i reply)).calls[i]? = some (.threw e)) :
    (s.step (.reply i reply)).chain = s.chain := by
  cases hi : s.calls[i]? with
  | none => simp only [Refreshing.step, hi]
  | some call =>
      have hlt : i < s.calls.length := (List.getElem?_eq_some_iff.mp hi).1
      simp only [Refreshing.step, hi, List.getElem?_set_self hlt, Option.some.injEq] at hthrew ⊢
      have hresumed := RefreshCall.resume_resumed s.chain call reply
      rw [hthrew] at hresumed
      generalize (call.resume s.chain reply).1 = chain at hresumed ⊢
      cases hresumed with
      | stopped e hopen => rfl
      | ended => rfl

/-- Over every interleaving of calls and replies: the finalized head never moves back,
an accepted root never changes, a final height stays final; a height has a root exactly
when it has a hash, at or below the head, and both are of one call; and a reply that
makes a call throw changes nothing. -/
theorem run_never_rewinds (events later : List RefreshEvent) :
    let s := LabelledRun.run step initial events
    let t := LabelledRun.run step s later
    s.chain.finalizedHeight ≤ t.chain.finalizedHeight ∧
    (∀ height root, s.chain.stateRootAt height = some root →
      t.chain.stateRootAt height = some root) ∧
    (∀ height, s.chain.isFinalized height = true → t.chain.isFinalized height = true) ∧
    (∀ height, (s.chain.stateRootAt height).isSome =
      (s.chain.hashes.get (toString height)).isSome) ∧
    (∀ height root, s.chain.stateRootAt height = some root →
      height ≤ s.chain.finalizedHeight ∧ s.Recorded height root) ∧
    ∀ i reply e, (s.step (.reply i reply)).calls[i]? = some (.threw e) →
      (s.step (.reply i reply)).chain = s.chain := by
  intro s t
  have h : s.Sound := Sound.initial.run events
  have hkeeps : Keeps s.chain t.chain := h.run_keeps later
  refine ⟨hkeeps.finalizedHeight, fun height root hroot => hkeeps.roots _ root hroot,
    fun height hfinal => ?_, fun height => h.paired _, fun height root hroot => ?_,
    fun i reply e hthrew => chain_of_threw hthrew⟩
  · have hle := hkeeps.finalizedHeight
    simp only [EthereumChain.isFinalized, Bool.and_eq_true, decide_eq_true_eq] at hfinal ⊢
    exact ⟨hfinal.1, Int.le_trans hfinal.2 hle⟩
  · obtain ⟨height', hkey, hle, hrecorded⟩ := h.recorded _ root hroot
    rw [BigIntText.toString_inj.mp hkey]
    exact ⟨hle, hrecorded⟩

end Refreshing

end Erc8415
