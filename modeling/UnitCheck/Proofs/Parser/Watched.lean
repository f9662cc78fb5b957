import UnitCheck.Proofs.Parser.Depth

/-!
  The parser under watch.

  A watched action is an action with a note of what happens on the way: of every call of a function,
  with the calls that have not ended then, and of every lowering of the depth, with the depth before
  it. Its guard asks the depth of the parser, and its chains count their links and give them back at
  once where they end.

  `Follows` says of a watched action all that is wanted, from one parser on: it does what the action
  without the watch does, it lowers the depth by no more than the depth, few calls are nested, and
  the tokens that are read pay for what is noted. It composes like actions do, with one lemma for
  each way to build one.
-/

namespace UnitCheck.Parser

open UnitCheck.Action

/-! ## Notes -/

/-- The functions of the parser. Those of a level are told by the number of tighter levels. -/
inductive Routine where
  | whole
  | expression
  | level (tighter : Nat)
  | chain (tighter : Nat)
  | signed
  | operand
  | inside
  | literal
  | unit
  | named
  | cast
  deriving DecidableEq

/-- Whether a function is a part, for which there has to be room. -/
def Routine.isGuarded : Routine → Bool
  | expression | operand => true
  | _ => false

/-- A call, with the depth of the parser when it was made. -/
structure Frame where
  routine : Routine
  depth : Nat
  deriving DecidableEq

/-- Whether the call is that of a part and there is room for it. -/
def Frame.isAdmitted (frame : Frame) : Bool :=
  frame.routine.isGuarded && decide (frame.depth < maxDepth)

/-- How many of the calls are those of parts that there was room for. -/
def admitted (stack : List Frame) : Nat := stack.countP Frame.isAdmitted

/-- What is noted. -/
inductive Event where
  /-- A call, with the calls it was made in: the innermost comes first, which is the call itself. -/
  | call (stack : List Frame)
  /-- The depth is lowered by some parts. -/
  | release (parts depth : Nat)
  deriving DecidableEq

/-- The note of an event, from outside of a call that it happened in. -/
def Event.within (frame : Frame) : Event → Event
  | call stack => call (stack ++ [frame])
  | release parts depth => release parts depth

/-! ## Watched actions -/

/-- Counts some parts as closed. -/
def closeParts (parts : Nat) : Action Unit :=
  still (fun p => (.ok (), { p with depth := p.depth - parts })) fun _ => rfl

/-- An action, and what is noted when it runs from a parser on. -/
structure Watched (α : Type) where
  action : Action α
  events : Parser → List Event

namespace Watched

variable {α β : Type}

/-- An action with nothing to note. -/
def ofAction (x : Action α) : Watched α := ⟨x, fun _ => []⟩

/-- One action, then another, unless the first fails. -/
def bind (x : Watched α) (f : α → Watched β) : Watched β where
  action := x.action >>= fun a => (f a).action
  events p := x.events p ++
    match x.action.run p with
    | (.error _, _) => []
    | (.ok a, q) => (f a).events q

instance : Monad Watched where
  pure a := ofAction (pure a)
  bind := bind

theorem action_bind (x : Watched α) (f : α → Watched β) :
    (x >>= f).action = x.action >>= fun a => (f a).action := rfl

theorem events_pure (a : α) (p : Parser) : (pure a : Watched α).events p = [] := rfl

theorem events_bind (x : Watched α) (f : α → Watched β) (p : Parser) :
    (x >>= f).events p = x.events p ++
      match x.action.run p with
      | (.error _, _) => []
      | (.ok a, q) => (f a).events q := rfl

/-- The call of a function. -/
def call (routine : Routine) (x : Watched α) : Watched α where
  action := x.action
  events p :=
    .call [⟨routine, p.depth⟩] :: (x.events p).map (Event.within ⟨routine, p.depth⟩)

/-- Counts a part as open, and fails if these are too many. -/
def guard : Watched Unit :=
  ofAction <|
    still
      (fun p =>
        (if maxDepth < p.depth + 1 then .error (.parse .tooDeep) else .ok (),
          { p with depth := p.depth + 1 }))
      fun _ => rfl

/-- Counts some parts as closed. -/
def release (parts : Nat) : Watched Unit where
  action := closeParts parts
  events p := [.release parts p.depth]

/-- The call of a function that is a part. -/
def guarded (routine : Routine) (x : Watched α) : Watched α :=
  call routine do
    guard
    let a ← x
    release 1
    return a

/-- So many rounds of a loop at most: an item, and the rounds after it if a separator follows. -/
def rounds (item : Watched α) (separator : Token.Kind) : Nat → Watched (List α)
  | 0 => return []
  | more + 1 => do
    let a ← item
    if ← ofAction (isNext separator) then
      ofAction advance
      let as ← rounds item separator more
      return a :: as
    else return [a]

/-- An item, and more of them as long as a separator follows. There are no more separators than
    tokens. -/
def separated (item : Watched α) (separator : Token.Kind) : Watched (List α) where
  action :=
    ⟨fun p => (rounds item separator (p.tokens.length + 1)).action.run p,
      fun p => (rounds item separator (p.tokens.length + 1)).action.suffix p⟩
  events p := (rounds item separator (p.tokens.length + 1)).events p

end Watched

/-! ## What is wanted of a watched action -/

theorem admitted_append (stack : List Frame) (frame : Frame) :
    admitted (stack ++ [frame]) = admitted stack + if frame.isAdmitted then 1 else 0 := by
  rw [admitted, List.countP_append, List.countP_singleton]
  rfl

/-- A lowering of the depth takes no more than it is. Of the calls that are nested no more than
    `room` are parts that there was room for; there are at most 14 calls for each of these, and
    `extra` besides. -/
def Event.Fits (room extra : Nat) : Event → Prop
  | call stack => admitted stack ≤ room ∧ stack.length ≤ 14 * admitted stack + extra
  | release parts depth => parts ≤ depth

theorem Event.Fits.mono {event : Event} {room room' extra extra' : Nat}
    (h : event.Fits room extra) (hroom : room ≤ room') (hextra : extra ≤ extra') :
    event.Fits room' extra' := by
  cases event with
  | call stack =>
    obtain ⟨hadmitted, hlength⟩ := h
    exact ⟨by omega, by omega⟩
  | release parts depth => exact h

/-- From the parser on, the watched action does what the action does, and its events fit. Each token
    that is read pays for 26 events; there are `won` more of them at most if the action succeeds,
    and `lost` more if it fails. -/
structure Follows {α : Type} (x : Watched α) (y : Action α) (p : Parser) (room extra : Nat)
    (won lost : Int) : Prop where
  same : x.action.run p = y.run p
  fits : ∀ event ∈ x.events p, event.Fits room extra
  paid : ∀ a q, y.run p = (.ok a, q) →
    (x.events p).length + 26 * q.tokens.length ≤ 26 * p.tokens.length + won
  paidByFailure : ∀ cause q, y.run p = (.error cause, q) →
    (x.events p).length + 26 * q.tokens.length ≤ 26 * p.tokens.length + lost

namespace Follows

variable {α β : Type} {x : Watched α} {y : Action α} {f : α → Watched β} {g : α → Action β}
  {p : Parser} {room room' extra extra' : Nat} {won won' lost lost' : Int}

theorem mono (h : Follows x y p room extra won lost) (hroom : room ≤ room')
    (hextra : extra ≤ extra') (hwon : won ≤ won') (hlost : lost ≤ lost') :
    Follows x y p room' extra' won' lost' where
  same := h.same
  fits event hevent := (h.fits event hevent).mono hroom hextra
  paid a q hrun := (h.paid a q hrun).trans (by omega)
  paidByFailure cause q hrun := (h.paidByFailure cause q hrun).trans (by omega)

/-- Only the run from the parser on counts. -/
theorem of_same {y' : Action α} (h : Follows x y p room extra won lost)
    (hsame : y.run p = y'.run p) : Follows x y' p room extra won lost where
  same := h.same.trans hsame
  fits := h.fits
  paid := hsame ▸ h.paid
  paidByFailure := hsame ▸ h.paidByFailure

/-! ### Actions with nothing to note -/

/-- Only what is read counts; where the action fails, no token is put back. -/
theorem ofAction_of_paid
    (hpaid : ∀ a q, y.run p = (.ok a, q) → 26 * (q.tokens.length : Int) ≤
      26 * p.tokens.length + won)
    (hlost : 0 ≤ lost) : Follows (Watched.ofAction y) y p room extra won lost where
  same := rfl
  fits _ h := absurd h List.not_mem_nil
  paid a q hrun := by
    rw [Watched.ofAction, List.length_nil, Int.ofNat_zero, Int.zero_add]
    exact hpaid a q hrun
  paidByFailure cause q hrun := by
    have hle := (y.suffix p).length_le
    rw [hrun] at hle
    rw [Watched.ofAction, List.length_nil]
    dsimp only at hle
    omega

/-- No token is put back. -/
theorem ofAction (y : Action α) (p : Parser) (hwon : 0 ≤ won) (hlost : 0 ≤ lost) :
    Follows (Watched.ofAction y) y p room extra won lost := by
  refine ofAction_of_paid (fun a q hrun => ?_) hlost
  have hle := (y.suffix p).length_le
  rw [hrun] at hle
  dsimp only at hle
  omega

/-- An action that reads a token wherever it succeeds. -/
theorem ofAction_of_lt
    (hread : ∀ a q, y.run p = (.ok a, q) → q.tokens.length < p.tokens.length)
    (hwon : -26 ≤ won) (hlost : 0 ≤ lost) :
    Follows (Watched.ofAction y) y p room extra won lost := by
  refine ofAction_of_paid (fun a q hrun => ?_) hlost
  have hlt := hread a q hrun
  omega

/-- An action that fails. -/
theorem ofAction_of_error {cause : FilterError} {q : Parser} (h : y.run p = (.error cause, q))
    (hlost : 0 ≤ lost) : Follows (Watched.ofAction y) y p room extra won lost := by
  refine ofAction_of_paid (fun a r hrun => ?_) hlost
  rw [h] at hrun
  cases hrun

/-- A value is no failure. -/
theorem pure (a : α) (p : Parser) (hwon : 0 ≤ won) :
    Follows (Pure.pure a : Watched α) (Pure.pure a) p room extra won lost where
  same := rfl
  fits _ h := absurd h List.not_mem_nil
  paid b q hrun := by
    obtain ⟨-, rfl⟩ := pure_eq_ok.1 hrun
    rw [Watched.events_pure, List.length_nil]
    omega
  paidByFailure cause q hrun := by cases hrun

/-! ### Actions one after the other -/

/-- Behind an action that fails nothing runs. -/
theorem bind_of_error {cause : FilterError} {q : Parser}
    (hx : Follows x y p room extra won lost) (hrun : y.run p = (.error cause, q)) (won' : Int) :
    Follows (x >>= f) (y >>= g) p room extra won' lost := by
  have hsame := hx.same.trans hrun
  -- The events of the second action are missing, and so is its answer.
  have hevents : (x >>= f).events p = x.events p := by
    rw [Watched.events_bind, hsame]
    exact List.append_nil _
  have hfail : (y >>= g).run p = (.error cause, q) := run_bind_error hrun
  refine ⟨?_, ?_, ?_, ?_⟩
  · rw [Watched.action_bind, run_bind_error hsame, hfail]
  · rw [hevents]
    exact hx.fits
  · intro b r hok
    rw [hfail] at hok
    cases hok
  · intro cause' r hfail'
    rw [hfail] at hfail'
    cases hfail'
    rw [hevents]
    exact hx.paidByFailure cause q hrun

/-- One action, then another with what the first leaves to spend. -/
theorem bind {spent : Int} (hx : Follows x y p room extra' spent lost') (hextra : extra' ≤ extra)
    (hlost : lost' ≤ lost)
    (hf : ∀ a q, y.run p = (.ok a, q) →
      Follows (f a) (g a) q room extra (won - spent) (lost - spent)) :
    Follows (x >>= f) (y >>= g) p room extra won lost := by
  replace hx := hx.mono (Nat.le_refl _) hextra (Int.le_refl _) hlost
  cases hrun : y.run p with
  | mk result q =>
    cases result with
    -- A failure of the first action is one of both; else its events come before those of the
    -- second.
    | error cause => exact hx.bind_of_error hrun _
    | ok a =>
      have hnext := hf a q hrun
      have hpaid := hx.paid a q hrun
      have hsame := hx.same.trans hrun
      have hevents : (x >>= f).events p = x.events p ++ (f a).events q := by
        rw [Watched.events_bind, hsame]
      have hgo : (y >>= g).run p = (g a).run q := run_bind_ok hrun
      refine ⟨?_, ?_, ?_, ?_⟩
      · rw [Watched.action_bind, run_bind_ok hsame, hgo, hnext.same]
      · rw [hevents]
        exact List.forall_mem_append.2 ⟨hx.fits, hnext.fits⟩
      · intro b r hok
        have hpaid' := hnext.paid b r (hgo ▸ hok)
        rw [hevents, List.length_append]
        omega
      · intro cause r hfail
        have hpaid' := hnext.paidByFailure cause r (hgo ▸ hfail)
        rw [hevents, List.length_append]
        omega

/-- An action with nothing to note leaves all there is to spend. -/
theorem ofAction_bind (hlost : 0 ≤ lost)
    (hf : ∀ a q, y.run p = (.ok a, q) → Follows (f a) (g a) q room extra won lost) :
    Follows (Watched.ofAction y >>= f) (y >>= g) p room extra won lost := by
  refine (ofAction y p (Int.le_refl 0) hlost).bind (Nat.le_refl _) (Int.le_refl _) ?_
  rw [Int.sub_zero, Int.sub_zero]
  exact hf

/-- A token that is read gives more to spend. -/
theorem ofAction_bind_of_lt
    (hread : ∀ a q, y.run p = (.ok a, q) → q.tokens.length < p.tokens.length)
    (hlost : 0 ≤ lost)
    (hf : ∀ a q, y.run p = (.ok a, q) → Follows (f a) (g a) q room extra (won + 26) (lost + 26)) :
    Follows (Watched.ofAction y >>= f) (y >>= g) p room extra won lost :=
  (ofAction_of_lt hread (Int.le_refl _) hlost).bind (Nat.le_refl _) (Int.le_refl _) hf

/-- Where there is a token, it is read. -/
theorem advance (h : p.current.kind ≠ .eof) (hwon : -26 ≤ won) (hlost : 0 ≤ lost) :
    Follows (Watched.ofAction Action.advance) Action.advance p room extra won lost := by
  obtain ⟨rest, htokens⟩ := tokens_of_current h
  refine ofAction_of_lt (fun _ q hrun => ?_) hwon hlost
  rw [run_advance htokens] at hrun
  cases hrun
  rw [htokens, tokens_past]
  exact Nat.lt_succ_self _

theorem advance_bind {f : Unit → Watched β} {g : Unit → Action β} (h : p.current.kind ≠ .eof)
    (hlost : 0 ≤ lost)
    (hf : ∀ rest, p.tokens = p.current :: rest →
      Follows (f ()) (g ()) (p.past rest 0) room extra (won + 26) (lost + 26)) :
    Follows (Watched.ofAction Action.advance >>= f) (Action.advance >>= g) p room extra won
      lost := by
  obtain ⟨rest, htokens⟩ := tokens_of_current h
  refine (advance h (Int.le_refl _) hlost).bind (Nat.le_refl _) (Int.le_refl _) fun _ q hrun => ?_
  rw [run_advance htokens] at hrun
  cases hrun
  exact hf rest htokens

/-! ### Calls -/

/-- What is noted in a call is the call, and what is noted of its inside. -/
theorem call_of_fits {routine : Routine} (h : Follows x y p room extra won lost)
    (hfits : ∀ stack, (Event.call stack).Fits room extra →
      (Event.call (stack ++ [⟨routine, p.depth⟩])).Fits room' extra')
    (hself : (Event.call [⟨routine, p.depth⟩]).Fits room' extra') :
    Follows (Watched.call routine x) y p room' extra' (won + 1) (lost + 1) := by
  -- The call is one event more, and puts its frame below those of its inside.
  have hlength : ((Watched.call routine x).events p).length = (x.events p).length + 1 := by
    rw [Watched.call, List.length_cons, List.length_map]
  refine ⟨h.same, ?_, ?_, ?_⟩
  · intro event hevent
    rcases List.mem_cons.1 hevent with rfl | hevent
    · exact hself
    · obtain ⟨inner, hinner, rfl⟩ := List.mem_map.1 hevent
      have hinnerFits := h.fits inner hinner
      cases inner with
      | call stack => exact hfits stack hinnerFits
      | release parts depth => exact hinnerFits
  · intro a q hrun
    have := h.paid a q hrun
    omega
  · intro cause q hrun
    have := h.paidByFailure cause q hrun
    omega

/-- A call that is none of a part, or of one that there is no room for, takes one more. -/
theorem call_of_not_admitted {routine : Routine}
    (hframe : (⟨routine, p.depth⟩ : Frame).isAdmitted = false)
    (h : Follows x y p room extra won lost) :
    Follows (Watched.call routine x) y p room (extra + 1) (won + 1) (lost + 1) := by
  have hself : admitted [⟨routine, p.depth⟩] = 0 := by
    rw [admitted, List.countP_singleton, hframe]
    rfl
  refine h.call_of_fits (fun stack hstack => ?_) ?_
  · obtain ⟨hadmitted, hlength⟩ := hstack
    have happend := admitted_append stack ⟨routine, p.depth⟩
    rw [hframe, if_neg (by decide)] at happend
    rw [Event.Fits, List.length_append, List.length_singleton]
    omega
  · rw [Event.Fits, List.length_singleton]
    omega

/-- A call of a function that is no part. -/
theorem call {routine : Routine} (hroutine : routine.isGuarded = false)
    (h : Follows x y p room extra (won - 1) (lost - 1)) :
    Follows (Watched.call routine x) y p room (extra + 1) won lost := by
  have hframe : (⟨routine, p.depth⟩ : Frame).isAdmitted = false := by
    rw [Frame.isAdmitted, hroutine, Bool.false_and]
  exact (h.call_of_not_admitted hframe).mono (Nat.le_refl _) (Nat.le_refl _) (by omega) (by omega)

/-- A call of a part that there is room for takes some of it. -/
theorem call_of_admitted {routine : Routine}
    (hframe : (⟨routine, p.depth⟩ : Frame).isAdmitted = true)
    (h : Follows x y p room 14 won lost) :
    Follows (Watched.call routine x) y p (room + 1) 1 (won + 1) (lost + 1) := by
  have hself : admitted [⟨routine, p.depth⟩] = 1 := by
    rw [admitted, List.countP_singleton, hframe]
    rfl
  refine h.call_of_fits (fun stack hstack => ?_) ?_
  · obtain ⟨hadmitted, hlength⟩ := hstack
    have happend := admitted_append stack ⟨routine, p.depth⟩
    rw [hframe, if_pos rfl] at happend
    rw [Event.Fits, List.length_append, List.length_singleton]
    omega
  · rw [Event.Fits, List.length_singleton]
    omega

/-! ### Parts -/

/-- Where there is room for a part, the guard opens it. -/
theorem guard_of_lt (h : p.depth < maxDepth) (hlost : 0 ≤ lost) :
    Follows Watched.guard openPart p room extra 0 lost := by
  refine (ofAction _ p (Int.le_refl 0) hlost).of_same ?_
  show ((if maxDepth < p.depth + 1 then _ else _), _) = _
  rw [if_neg (by omega)]
  rfl

/-- Where there is none, it fails, and the part is counted as open. -/
theorem guard_of_le (h : maxDepth ≤ p.depth) :
    Follows Watched.guard (refusePart : Action Unit) p room extra 0 0 := by
  refine (ofAction _ p (Int.le_refl 0) (Int.le_refl 0)).of_same ?_
  show ((if maxDepth < p.depth + 1 then _ else _), _) = _
  rw [if_pos (by omega)]
  rfl

/-- Nothing runs behind the guard then. -/
theorem guard_bind_of_le {f : Unit → Watched α} (h : maxDepth ≤ p.depth) (won : Int)
    (hlost : 0 ≤ lost) :
    Follows (Watched.guard >>= f) (refusePart : Action α) p room extra won lost := by
  have hguard : Follows (Watched.guard >>= f) (do refusePart; refusePart : Action α) p room extra
      won 0 :=
    (guard_of_le h).bind_of_error run_refusePart won
  exact (hguard.of_same (run_bind_error run_refusePart)).mono (Nat.le_refl _) (Nat.le_refl _)
    (Int.le_refl _) hlost

/-- As many parts are closed as are open, at most. -/
theorem release {parts : Nat} (h : parts ≤ p.depth) (lost : Int) :
    Follows (Watched.release parts) (closeParts parts) p room extra 1 lost := by
  refine ⟨rfl, ?_, ?_, ?_⟩
  · intro event hevent
    obtain rfl := List.mem_singleton.1 hevent
    exact h
  · intro a q hrun
    cases hrun
    rw [Watched.release, List.length_singleton]
    dsimp only
    omega
  · intro cause q hrun
    cases hrun

/-- Parts are closed behind an action that has left them open. -/
theorem release_bind {parts : Nat} (a : α) (h : parts ≤ p.depth) (hwon : 1 ≤ won) :
    Follows (do Watched.release parts; return a) (do closeParts parts; return a) p room extra
      won lost :=
  (release h _).bind (Nat.le_refl _) (Int.le_refl _) fun _ q _ => pure a q (by omega)

/-- A function that is a part, where there is room for it: its inside has less room by that part,
    and leaves it open. -/
theorem guarded {routine : Routine} (hroutine : routine.isGuarded = true)
    (hdepth : p.depth < maxDepth)
    (h : Follows x y { p with depth := p.depth + 1 } room 14 won lost) (hlost : 0 ≤ lost)
    (hkeeps : ∀ a q, y.run { p with depth := p.depth + 1 } = (.ok a, q) → q.depth = p.depth + 1) :
    Follows (Watched.guarded routine x) (inPart y) p (room + 1) 1 (won + 2) (lost + 1) := by
  have hframe : (⟨routine, p.depth⟩ : Frame).isAdmitted = true := by
    rw [Frame.isAdmitted, hroutine, decide_eq_true hdepth]
    rfl
  -- The guard opens the part and the release closes it, so the depth is that before.
  have hinner : Follows (do Watched.guard; let a ← x; Watched.release 1; return a)
      (inPart y) p room 14 (won + 1) lost := by
    refine (guard_of_lt hdepth hlost).bind (Nat.le_refl _) (Int.le_refl _) fun _ q hopened => ?_
    cases hopened
    refine h.bind (Nat.le_refl _) (by omega) fun a q hrun => ?_
    have hdepth' := hkeeps a q hrun
    exact release_bind a (by omega) (by omega)
  exact (hinner.call_of_admitted hframe).mono (Nat.le_refl _) (Nat.le_refl _) (by omega)
    (Int.le_refl _)

/-- Where there is no room for the part, its call ends at the guard. -/
theorem guarded_of_le {routine : Routine} (hdepth : maxDepth ≤ p.depth) (x : Watched α) :
    Follows (Watched.guarded routine x) refusePart p room 1 won 1 := by
  have hframe : (⟨routine, p.depth⟩ : Frame).isAdmitted = false := by
    rw [Frame.isAdmitted, decide_eq_false (Nat.not_lt.2 hdepth), Bool.and_false]
  have hguard : Follows (do Watched.guard; let a ← x; Watched.release 1; return a)
      (refusePart : Action α) p room 0 (won - 1) 0 :=
    guard_bind_of_le hdepth _ (Int.le_refl 0)
  exact (hguard.call_of_not_admitted hframe).mono (Nat.le_refl _) (Nat.le_refl _) (by omega)
    (by omega)

/-! ### Loops -/

/-- The loop is a round of it, and what it is from there on. -/
theorem run_separated {separator : Token.Kind} (hseparator : separator ≠ .eof) (item : Action α)
    (p : Parser) :
    (do
      let a ← item
      if ← isNext separator then
        Action.advance
        let as ← Action.separated item separator
        return a :: as
      else return [a] : Action (List α)).run p = (Action.separated item separator).run p := by
  cases hrun : item.run p with
  | mk result q =>
    cases result with
    | error cause => rw [run_bind_error hrun, run_separated_error hrun]
    | ok a =>
      rw [run_bind_ok hrun, run_bind_ok (run_isNext _)]
      -- The loop goes on just behind a separator, which is not the end.
      rcases separator_or_last q separator with ⟨token, rest, htokens, hkind⟩ | hlast
      · rw [current_of_cons htokens, if_pos (decide_eq_true hkind),
          run_bind_ok (run_advance htokens), run_separated_more hrun htokens hkind, run_bind]
        cases (Action.separated item separator).run (q.past rest 0) with
        | mk result r => cases result <;> rfl
      · rw [run_separated_last hrun hlast, if_neg ?_, run_pure]
        rw [decide_eq_true_eq]
        intro hkind
        obtain ⟨rest, htokens⟩ := tokens_of_current (hkind ▸ hseparator)
        exact hlast q.current (by rw [htokens]; rfl) hkind

/-- The rounds of a loop over items, as many as there can be. Behind an item that is not the last
    one there is a separator, which pays for what the item spends. -/
theorem rounds {separator : Token.Kind} (hseparator : separator ≠ .eof) {depth : Nat}
    (hitem : ∀ q, q.depth = depth → Follows x y q room extra won lost)
    (hkeeps : ∀ q a r, y.run q = (.ok a, r) → r.depth = q.depth) (hwon : won ≤ 26)
    (hlost : won ≤ lost) (more : Nat) (hdepth : p.depth = depth) (hmore : p.tokens.length < more) :
    Follows (Watched.rounds x separator more) (Action.separated y separator) p room extra won
      lost := by
  induction more generalizing p with
  | zero => exact absurd hmore (Nat.not_lt_zero _)
  | succ more ih =>
    refine of_same ?_ (run_separated hseparator y p)
    rw [Watched.rounds]
    refine (hitem p hdepth).bind (Nat.le_refl _) (Int.le_refl _) fun a r hrun => ?_
    refine ofAction_bind (by omega) fun next s hnext => ?_
    cases hnext
    split
    · next hnext =>
      rw [decide_eq_true_eq] at hnext
      refine advance_bind (hnext ▸ hseparator) (by omega) fun rest htokens => ?_
      -- The item puts no token back and the separator is taken, so the tokens get fewer.
      have hle := (y.suffix p).length_le
      rw [hrun, htokens, List.length_cons] at hle
      have hrest := ih (p := r.past rest 0) ((hkeeps p a r hrun).trans hdepth)
        (Nat.lt_of_lt_of_le hle (Nat.le_of_lt_succ hmore))
      exact hrest.bind (Nat.le_refl _) (by omega) fun as s _ => pure _ _ (by omega)
    · exact pure _ _ (by omega)

/-- A loop over items. -/
theorem separated {separator : Token.Kind} (hseparator : separator ≠ .eof)
    (hitem : ∀ q, q.depth = p.depth → Follows x y q room extra won lost)
    (hkeeps : ∀ q a r, y.run q = (.ok a, r) → r.depth = q.depth) (hwon : won ≤ 26)
    (hlost : won ≤ lost) :
    Follows (Watched.separated x separator) (Action.separated y separator) p room extra won
      lost := by
  have h := rounds hseparator hitem hkeeps hwon hlost _ rfl (Nat.lt_succ_self p.tokens.length)
  exact ⟨h.same, h.fits, h.paid, h.paidByFailure⟩

end Follows

end UnitCheck.Parser
