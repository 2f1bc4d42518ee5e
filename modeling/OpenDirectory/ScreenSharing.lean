import OpenDirectory.Value

/-! A shared screen on its way from a machine to the console. A connection of the machine is a link with two queues,
one page takes it, and the tasks at each end carry messages between a socket and the queues. What is done between
two `await`s is one move. Any moves may follow one another: a socket may close and an offer may end at any time. -/

namespace OpenDirectory.Assisting

/-- What a machine is sent: that a page has attached, or what the page wrote. -/
inductive Frame (β : Type) where
  | text (word : String)
  | bytes (data : β)

/-- The page of a console session. What went over its socket is `shown` and `said`. -/
structure Page (β : Type) where
  session : String
  gone : Bool := false
  shown : List β := []
  said : List β := []

/-- A connection of a machine; `taken` is that it has a page. The task that reads a queue ends at a `None`. What went
over the machine's own socket is `told` and `heard`. -/
structure Link (β : Type) where
  offer : Nat
  machine : String
  toAgent : List (Option (Frame β)) := []
  toConsole : List (Option β) := []
  page : Option (Page β) := none
  closed : Bool := false
  serving : Bool := true
  told : List (Frame β) := []
  heard : List β := []

/-- What an offer is made for, and never changes. -/
structure Asked where
  dn : String
  adminSessionId : String

/-- The offers of the registry, and `offer.link`. -/
structure World (β : Type) where
  live : Nat → Bool := fun _ => false
  current : Nat → Option Nat := fun _ => none
  links : List (Link β) := []

variable {β : Type}

def Link.close (link : Link β) : Link β :=
  if link.closed then link
  else { link with closed := true, toAgent := link.toAgent ++ [none], toConsole := link.toConsole ++ [none] }

/-- What goes over the sockets, while both ends of each are there. -/
inductive Deed (β : Type) where
  | hear (message : β)
  | tell
  | say (message : β)
  | view

def Link.carry (link : Link β) : Deed β → Link β
  | .hear message =>
      if link.serving then
        { link with toConsole := link.toConsole ++ [some message], heard := link.heard ++ [message] }
      else link
  | .tell =>
      match link.serving, link.toAgent with
      | true, some frame :: rest => { link with toAgent := rest, told := link.told ++ [frame] }
      | _, _ => link
  | .say message =>
      match link.page.filter (!·.gone) with
      | some page => { link with
          toAgent := link.toAgent ++ [some (.bytes message)]
          page := some { page with said := page.said ++ [message] } }
      | none => link
  | .view =>
      match link.page.filter (!·.gone), link.toConsole with
      | some page, some message :: rest => { link with
          toConsole := rest
          page := some { page with shown := page.shown ++ [message] } }
      | _, _ => link

/-- `take_link`, and the word that the page is there. -/
def Link.take (link : Link β) (session : String) : Link β :=
  if link.page.isSome || link.closed then link
  else { link with page := some { session }, toAgent := link.toAgent ++ [some (.text "open")] }

def Link.hangUp (link : Link β) : Link β := { link.close with serving := false }

def Link.leave (link : Link β) : Link β := { link.close with page := link.page.map ({ · with gone := true }) }

theorem offer_close (link : Link β) : link.close.offer = link.offer := by
  unfold Link.close
  split <;> rfl

theorem offer_carry (link : Link β) (deed : Deed β) : (link.carry deed).offer = link.offer := by
  cases deed <;> simp only [Link.carry] <;> split <;> rfl

theorem offer_take (link : Link β) (session : String) : (link.take session).offer = link.offer := by
  unfold Link.take
  split <;> rfl

def World.onLink (world : World β) (k : Nat) (change : Link β → Link β) : World β :=
  { world with links := world.links.modify k change }

inductive Move (β : Type) where
  | create (offer : Nat)
  | finish (offer : Nat)
  | connect (offer : Nat) (machine : String)
  | offer (link : Nat)
  | take (offer : Nat) (session : String)
  | carry (link : Nat) (deed : Deed β)
  | hangUp (link : Nat)
  | leave (link : Nat)

section

variable [Runtime] (asked : Nat → Asked)

def next (world : World β) : Move β → World β
  | .create o => { world with live := Function.update world.live o true }
  | .finish o =>
      let ended := { world with live := Function.update world.live o false }
      match world.current o with
      | some k => ended.onLink k Link.close
      | none => ended
  | .connect o machine =>
      if world.live o ∧ lower (asked o).dn = lower machine then
        { world with links := world.links ++ [{ offer := o, machine }] }
      else world
  -- the socket was accepted, and the offer may have ended since
  | .offer k =>
      match world.links[k]? with
      | some link => { world with current := Function.update world.current link.offer (some k) }
      | none => world
  -- the page was let in before, and has waited for a link
  | .take o session =>
      match world.current o with
      | some k => if session = (asked o).adminSessionId then world.onLink k (·.take session) else world
      | none => world
  | .carry k deed => world.onLink k (·.carry deed)
  | .hangUp k =>
      { world.onLink k Link.hangUp with
        current := fun o => if world.current o = some k then none else world.current o }
  | .leave k => world.onLink k Link.leave

/-- What the page of a link was shown. -/
def Link.shown (link : Link β) : List β := link.page.elim [] Page.shown

/-- What the machine is to be told: nothing without a page, else that it is there and what it says. -/
def Link.due (link : Link β) : List (Frame β) := link.page.elim [] fun page => .text "open" :: page.said.map .bytes

/-- A link carries what it was given, each way in its order, between the machine an offer is about and the session
that asked for it. -/
structure Link.Whole (link : Link β) : Prop where
  machine : lower link.machine = lower (asked link.offer).dn
  session : ∀ page ∈ link.page, page.session = (asked link.offer).adminSessionId
  heard : link.shown ++ link.toConsole.reduceOption = link.heard
  told : link.told ++ link.toAgent.reduceOption = link.due

structure Sound (world : World β) : Prop where
  whole : ∀ link ∈ world.links, link.Whole asked
  current : ∀ o k, world.current o = some k → ∃ link, world.links[k]? = some link ∧ link.offer = o

variable {asked} {world : World β} {link : Link β} {k : Nat}

/-- A change of one link keeps the others as they are. -/
theorem Sound.onLink (h : Sound asked world) {change : Link β → Link β} (hoffer : ∀ link, (change link).offer = link.offer)
    (hchange : ∀ link, world.links[k]? = some link → link.Whole asked → (change link).Whole asked) :
    Sound asked (world.onLink k change) := by
  constructor
  · intro link hlink
    obtain ⟨place, hplace⟩ := List.mem_iff_getElem?.mp hlink
    rw [World.onLink, List.getElem?_modify] at hplace
    obtain ⟨before, hbefore, rfl⟩ := Option.map_eq_some_iff.mp hplace
    have hwhole := h.whole before (List.mem_of_getElem? hbefore)
    split
    · rename_i heq
      exact hchange before (heq ▸ hbefore) hwhole
    · exact hwhole
  · intro o place hcurrent
    obtain ⟨link, hlink, hof⟩ := h.current o place hcurrent
    refine ⟨_, by rw [World.onLink, List.getElem?_modify, hlink]; rfl, ?_⟩
    split
    · rw [hoffer, hof]
    · exact hof

theorem Link.Whole.close (h : link.Whole asked) : link.close.Whole asked := by
  unfold Link.close
  split
  · exact h
  · exact ⟨h.machine, h.session, by simpa [List.reduceOption_append, Link.shown] using h.heard,
      by simpa [List.reduceOption_append, Link.due] using h.told⟩

theorem Link.Whole.take (h : link.Whole asked) {session : String} (hsession : session = (asked link.offer).adminSessionId) :
    (link.take session).Whole asked := by
  unfold Link.take
  split
  · exact h
  · rename_i hfree
    have hnone : link.page = none := by
      simp only [Bool.or_eq_true, not_or, Option.not_isSome_iff_eq_none] at hfree
      exact hfree.1
    have hheard := h.heard
    have htold := h.told
    simp only [Link.shown, Link.due, hnone, Option.elim_none] at hheard htold
    refine ⟨h.machine, fun page hpage => ?_, hheard, ?_⟩
    · obtain rfl := Option.some.inj hpage
      exact hsession
    · rw [List.reduceOption_append, ← List.append_assoc, htold]
      rfl

theorem Link.Whole.carry (h : link.Whole asked) (deed : Deed β) : (link.carry deed).Whole asked := by
  cases deed with
  | hear message =>
      simp only [Link.carry]
      split
      · refine ⟨h.machine, h.session, ?_, h.told⟩
        rw [← h.heard, List.reduceOption_append, ← List.append_assoc]
        rfl
      · exact h
  | tell =>
      simp only [Link.carry]
      split
      · rename_i frame rest _ hqueue
        refine ⟨h.machine, h.session, h.heard, ?_⟩
        have htold := h.told
        rw [hqueue, List.reduceOption_cons_of_some] at htold
        rw [List.append_assoc]
        exact htold
      · exact h
  | say message =>
      simp only [Link.carry]
      split
      · rename_i page hpage
        have hpage := (Option.filter_eq_some_iff.mp hpage).1
        have hheard := h.heard
        have htold := h.told
        simp only [Link.shown, Link.due, hpage, Option.elim_some] at hheard htold
        refine ⟨h.machine, fun _ hsome => ?_, hheard, ?_⟩
        · obtain rfl := Option.some.inj hsome
          exact h.session page hpage
        · rw [List.reduceOption_append, ← List.append_assoc, htold]
          simp [Link.due]
      · exact h
  | view =>
      simp only [Link.carry]
      split
      · rename_i page message rest hpage hqueue
        have hpage := (Option.filter_eq_some_iff.mp hpage).1
        have hheard := h.heard
        have htold := h.told
        simp only [Link.shown, Link.due, hpage, hqueue, Option.elim_some, List.reduceOption_cons_of_some] at hheard htold
        refine ⟨h.machine, fun _ hsome => ?_, ?_, htold⟩
        · obtain rfl := Option.some.inj hsome
          exact h.session page hpage
        · simpa [Link.shown] using hheard
      · exact h

theorem Link.Whole.leave (h : link.Whole asked) : link.leave.Whole asked := by
  obtain ⟨hmachine, hsession, hheard, htold⟩ := h.close
  have hpage : link.close.page = link.page := by
    unfold Link.close
    split <;> rfl
  rw [Link.shown, hpage] at hheard
  rw [Link.due, hpage] at htold
  cases hnow : link.page with
  | none =>
      rw [hnow] at hheard htold
      exact ⟨hmachine, by simp [Link.leave, hnow], by simpa [Link.leave, Link.shown, hnow] using hheard,
        by simpa [Link.leave, Link.due, hnow] using htold⟩
  | some page =>
      rw [hpage, hnow] at hsession
      rw [hnow] at hheard htold
      refine ⟨hmachine, fun later hlater => ?_, by simpa [Link.leave, Link.shown, hnow] using hheard,
        by simpa [Link.leave, Link.due, hnow] using htold⟩
      rw [Link.leave, hnow, Option.map_some] at hlater
      obtain rfl := Option.some.inj hlater
      exact hsession page rfl

theorem Sound.next (h : Sound asked world) (move : Move β) : Sound asked (next asked world move) := by
  cases move with
  | create o => exact ⟨h.whole, h.current⟩
  | finish o =>
      have hended : Sound asked { world with live := Function.update world.live o false } := ⟨h.whole, h.current⟩
      simp only [Assisting.next]
      split
      · exact hended.onLink offer_close fun _ _ hwhole => hwhole.close
      · exact hended
  | connect o machine =>
      simp only [Assisting.next]
      split
      · rename_i hget
        constructor
        · intro link hlink
          rcases List.mem_append.mp hlink with hbefore | hnew
          · exact h.whole link hbefore
          · obtain rfl := List.mem_singleton.mp hnew
            exact ⟨hget.2.symm, nofun, rfl, rfl⟩
        · intro place k hcurrent
          obtain ⟨link, hlink, hof⟩ := h.current place k hcurrent
          exact ⟨link, by rw [List.getElem?_append_left (List.getElem?_eq_some_iff.mp hlink).1, hlink], hof⟩
      · exact h
  | offer k =>
      simp only [Assisting.next]
      split
      · rename_i link hlink
        refine ⟨h.whole, fun o place hcurrent => ?_⟩
        dsimp only at hcurrent
        by_cases hown : o = link.offer
        · subst hown
          rw [Function.update_self] at hcurrent
          obtain rfl := Option.some.inj hcurrent
          exact ⟨link, hlink, rfl⟩
        · rw [Function.update_of_ne hown] at hcurrent
          exact h.current o place hcurrent
      · exact h
  | take o session =>
      simp only [Assisting.next]
      split
      · rename_i k hcurrent
        obtain ⟨link, hlink, hof⟩ := h.current o k hcurrent
        split
        · rename_i hsession
          refine h.onLink (offer_take · session) fun found hfound hwhole => hwhole.take ?_
          rw [← Option.some.inj (hlink.symm.trans hfound), hof]
          exact hsession
        · exact h
      · exact h
  | carry k deed => exact h.onLink (offer_carry · deed) fun _ _ hwhole => hwhole.carry deed
  | hangUp k =>
      have hhung : Sound asked (world.onLink k Link.hangUp) := by
        refine h.onLink offer_close fun _ _ hwhole => ?_
        obtain ⟨hmachine, hsession, hheard, htold⟩ := hwhole.close
        exact ⟨hmachine, hsession, hheard, htold⟩
      refine ⟨hhung.whole, fun o place hcurrent => ?_⟩
      simp only [Assisting.next] at hcurrent
      split at hcurrent
      · cases hcurrent
      · exact hhung.current o place hcurrent
  | leave k => exact h.onLink offer_close fun _ _ hwhole => hwhole.leave

/-- Screens are shown to those who asked for them: the machine of a link is the one its offer is about, its page is of
the session that asked, is shown what that machine sent from the beginning and in its order, and the machine is told
that there is a page and then what this page says. -/
def Private (asked : Nat → Asked) (world : World β) : Prop :=
  ∀ link ∈ world.links, lower link.machine = lower (asked link.offer).dn ∧
    (∀ page ∈ link.page, page.session = (asked link.offer).adminSessionId ∧ page.shown <+: link.heard ∧
      link.told <+: .text "open" :: page.said.map .bytes) ∧
    (link.page = none → link.told = [])

theorem screens_private (moves : List (Move β)) : Private asked (moves.foldl (next asked) {}) := by
  have hsound : Sound asked (moves.foldl (Assisting.next asked) {}) :=
    List.foldlRecOn moves _ ⟨by simp, by simp⟩ fun _ h move _ => h.next move
  intro link hlink
  obtain ⟨hmachine, hsession, hheard, htold⟩ := hsound.whole link hlink
  refine ⟨hmachine, fun page hpage => ⟨hsession page hpage, ?_, ?_⟩, fun hnone => ?_⟩
  · rw [Link.shown, Option.mem_def.mp hpage] at hheard
    exact ⟨_, hheard⟩
  · rw [Link.due, Option.mem_def.mp hpage] at htold
    exact ⟨_, htold⟩
  · rw [Link.due, hnone] at htold
    exact (List.append_eq_nil_iff.mp htold).1

end

end OpenDirectory.Assisting
