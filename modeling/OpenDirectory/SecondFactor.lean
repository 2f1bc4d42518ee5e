import OpenDirectory.SignIn

/-! Whether a second factor was asked for. The console asks for it after a password; a ticket and a
sign-in at an application come in without it, and a phone alone is not asked. -/

namespace OpenDirectory.SignIn

open Totp (Enrolment Answer Library)

variable [Runtime] [Library]

/-- A sign-in that is not asked for the second factor its account has. -/
def World.Bypasses (world : World) : Move → Prop
  | .verify attempt => ∃ request at_ account,
      world.pending attempt = some (request, .checked at_) ∧
        authenticate world.console.directory request.name request.password = .ok account ∧
        match request.route with
        | .console => world.console.admissible account = true ∧ world.console.authenticator account = none ∧
            world.console.hasPhone account = true
        | .openid => world.console.enrolled account = true
  | .ticket route principal _ => ∃ account,
      authorizePrincipal world.console.directory principal = .ok account ∧
        (route = .console → world.console.admissible account = true) ∧
        world.console.enrolled account = true
  | _ => False

section

variable {world : World} {request : Request} {account : Account} {factor : Option Answer}

omit [Runtime] [Library] in
theorem enrolled_of_none (h : world.console.authenticator account = none) :
    world.console.enrolled account = world.console.hasPhone account := by
  rw [Console.enrolled, h, Option.isSome_none, Bool.false_or]

theorem login_session_none :
    world.console.login request world.now = .session account none ↔
      authenticate world.console.directory request.username request.password = .ok account ∧
        world.console.admissible account = true ∧ world.console.authenticator account = none := by
  unfold Console.login
  cases hfound : authenticate world.console.directory request.username request.password with
  | error refusal => cases refusal <;> simp
  | ok found =>
      dsimp only
      by_cases hadmissible : world.console.admissible found = true
      · rw [hadmissible]
        cases hrow : world.console.authenticator found with
        | none =>
            constructor
            · intro h
              cases h
              exact ⟨rfl, hadmissible, hrow⟩
            · rintro ⟨heq, _⟩
              cases heq
              rfl
        | some enrolment =>
            refine iff_of_false ?_ ?_
            · simp only [Bool.not_true, Bool.false_eq_true, if_false]
              split
              · nofun
              · split <;> simp
            · rintro ⟨heq, _, hnone⟩
              cases heq
              cases hrow.symm.trans hnone
      · rw [Bool.not_eq_true] at hadmissible
        rw [hadmissible]
        refine iff_of_false nofun ?_
        rintro ⟨heq, hadmitted, _⟩
        cases heq
        exact Bool.false_ne_true (hadmissible.symm.trans hadmitted)

omit [Library] in
theorem authorizeWithPassword_code : world.console.authorizeWithPassword request = .code account ↔
    authenticate world.console.directory (Text.strip Runtime.blank request.username) request.password =
      .ok account := by
  unfold Console.authorizeWithPassword
  cases authenticate world.console.directory (Text.strip Runtime.blank request.username)
      request.password with
  | error refusal => cases refusal <;> simp
  | ok found => simp

variable {principal : String} {route : Route}

omit [Library] in
theorem negotiate_session : world.console.negotiate principal = .session account factor ↔
    authorizePrincipal world.console.directory principal = .ok account ∧
      world.console.admissible account = true ∧ factor = none := by
  unfold Console.negotiate
  cases authorizePrincipal world.console.directory principal with
  | error refusal => cases refusal <;> simp
  | ok found =>
      by_cases hadmissible : world.console.admissible found = true
      · simp only [hadmissible, if_true, Outcome.session.injEq, Except.ok.injEq]
        constructor
        · rintro ⟨rfl, rfl⟩
          exact ⟨rfl, hadmissible, rfl⟩
        · rintro ⟨rfl, _, rfl⟩
          exact ⟨rfl, rfl⟩
      · simp only [hadmissible, if_false, reduceCtorEq, Except.ok.injEq, false_iff]
        rintro ⟨rfl, hadmitted, _⟩
        exact hadmissible hadmitted

omit [Library] in
theorem authorize_code : world.console.authorize principal = .code account ↔
    authorizePrincipal world.console.directory principal = .ok account := by
  unfold Console.authorize
  cases authorizePrincipal world.console.directory principal with
  | error refusal => cases refusal <;> simp
  | ok found => simp

theorem login_ne_code : world.console.login request world.now ≠ .code account := by
  unfold Console.login
  split
  · nofun
  · nofun
  · split
    · nofun
    · split
      · nofun
      · split
        · nofun
        · split <;> nofun

section
omit [Library]

theorem authorizeWithPassword_ne_session :
    world.console.authorizeWithPassword request ≠ .session account factor := by
  unfold Console.authorizeWithPassword
  split <;> nofun

theorem negotiate_ne_code : world.console.negotiate principal ≠ .code account := by
  unfold Console.negotiate
  split
  · nofun
  · nofun
  · nofun
  · split <;> nofun

theorem authorize_ne_session :
    world.console.authorize principal ≠ .session account factor := by
  unfold Console.authorize
  split <;> nofun

end

theorem mem_verify {attempt : Nat} {enrolled : Bool} :
    .handed route account enrolled factor ∈ (world.verify attempt request).2 ↔
      enrolled = world.console.enrolled account ∧
        (route = .console ∧ world.outcome request = .session account factor ∨
          route = .openid ∧ world.outcome request = .code account ∧ factor = none) := by
  unfold World.verify
  cases houtcome : world.outcome request with
  | session found answer =>
      simp only [World.issue, World.settle, List.mem_singleton, Event.handed.injEq, Outcome.session.injEq,
        reduceCtorEq, false_and, and_false, or_false]
      constructor
      · rintro ⟨rfl, rfl, rfl, rfl⟩
        exact ⟨rfl, rfl, rfl, rfl⟩
      · rintro ⟨rfl, rfl, rfl, rfl⟩
        exact ⟨rfl, rfl, rfl, rfl⟩
  | code found =>
      simp only [World.issue, World.settle, List.mem_singleton, Event.handed.injEq, Outcome.code.injEq,
        reduceCtorEq, and_false, false_or]
      constructor
      · rintro ⟨rfl, rfl, rfl, rfl⟩
        exact ⟨rfl, rfl, rfl, rfl⟩
      · rintro ⟨rfl, rfl, rfl, rfl⟩
        exact ⟨rfl, rfl, rfl, rfl⟩
  | _ => simp

omit [Library] in
theorem mem_ticket {route' : Route} {sourceIp : Option String} {enrolled : Bool} :
    .handed route' account enrolled factor ∈ (world.ticket route principal sourceIp).2 ↔
      route' = route ∧ enrolled = world.console.enrolled account ∧ factor = none ∧
        authorizePrincipal world.console.directory principal = .ok account ∧
          (route = .console → world.console.admissible account = true) := by
  unfold World.ticket
  cases route with
  | console =>
      dsimp only
      cases houtcome : world.console.negotiate principal with
      | session found answer =>
          obtain ⟨hprincipal, hadmissible, _⟩ := negotiate_session.mp houtcome
          simp only [World.issue, List.mem_singleton, Event.handed.injEq]
          constructor
          · rintro ⟨rfl, rfl, rfl, rfl⟩
            exact ⟨rfl, rfl, rfl, hprincipal, fun _ => hadmissible⟩
          · rintro ⟨rfl, rfl, rfl, heq, _⟩
            cases hprincipal.symm.trans heq
            exact ⟨rfl, rfl, rfl, rfl⟩
      | code found => exact absurd houtcome negotiate_ne_code
      | _ =>
          refine iff_of_false (by simp) ?_
          rintro ⟨_, _, _, hprincipal, hadmissible⟩
          cases houtcome.symm.trans (negotiate_session.mpr ⟨hprincipal, hadmissible rfl, rfl⟩)
  | openid =>
      dsimp only
      cases houtcome : world.console.authorize principal with
      | code found =>
          have hprincipal := authorize_code.mp houtcome
          simp only [List.mem_singleton, Event.handed.injEq]
          constructor
          · rintro ⟨rfl, rfl, rfl, rfl⟩
            exact ⟨rfl, rfl, rfl, hprincipal, nofun⟩
          · rintro ⟨rfl, rfl, rfl, heq, _⟩
            cases hprincipal.symm.trans heq
            exact ⟨rfl, rfl, rfl, rfl⟩
      | session found answer => exact absurd houtcome authorize_ne_session
      | _ =>
          refine iff_of_false (by simp) ?_
          rintro ⟨_, _, _, hprincipal, _⟩
          cases houtcome.symm.trans (authorize_code.mpr hprincipal)

theorem step_bypasses (limits : Limits) (world : World) (move : Move) :
    (∃ route account, .handed route account true none ∈ (world.step limits move).2) ↔
      world.Bypasses move := by
  cases move with
  | check attempt request =>
      refine iff_of_false ?_ id
      simp only [World.step]
      split <;> simp
  | record attempt =>
      refine iff_of_false ?_ id
      simp only [World.step]
      split <;> simp
  | change console => exact iff_of_false (by simp [World.step]) id
  | tick elapsed => exact iff_of_false (by simp [World.step]) id
  | ticket route principal sourceIp =>
      simp only [World.step, World.Bypasses, mem_ticket]
      constructor
      · rintro ⟨_, account, rfl, henrolled, _, hprincipal, hadmissible⟩
        exact ⟨account, hprincipal, hadmissible, henrolled.symm⟩
      · rintro ⟨account, hprincipal, hadmissible, henrolled⟩
        exact ⟨route, account, rfl, henrolled.symm, trivial, hprincipal, hadmissible⟩
  | verify attempt =>
      simp only [World.step, World.Bypasses]
      cases hpending : world.pending attempt with
      | none => simp
      | some reading =>
          obtain ⟨request, stage⟩ := reading
          cases stage with
          | owing username failed => simp
          | checked at_ =>
              simp only [mem_verify, and_true, World.outcome, Option.some.injEq, Prod.mk.injEq,
                Stage.checked.injEq]
              cases hroute : request.route with
              | console =>
                  have hname : request.name = request.username := by rw [Request.name, hroute]
                  constructor
                  · rintro ⟨_, account, henrolled, ⟨_, hsession⟩ | ⟨_, hcode⟩⟩
                    · obtain ⟨hfound, hadmissible, hnone⟩ := login_session_none.mp hsession
                      refine ⟨request, at_, account, ⟨rfl, rfl⟩, hname ▸ hfound, ?_⟩
                      rw [hroute]
                      exact ⟨hadmissible, hnone, (enrolled_of_none hnone).symm.trans henrolled.symm⟩
                    · exact absurd hcode login_ne_code
                  · rintro ⟨_, _, account, ⟨rfl, rfl⟩, hfound, hcase⟩
                    rw [hroute] at hcase
                    obtain ⟨hadmissible, hnone, hphone⟩ := hcase
                    refine ⟨.console, account, ((enrolled_of_none hnone).trans hphone).symm, .inl ⟨rfl, ?_⟩⟩
                    exact login_session_none.mpr ⟨hname ▸ hfound, hadmissible, hnone⟩
              | openid =>
                  have hname : request.name = Text.strip Runtime.blank request.username := by
                    rw [Request.name, hroute]
                  constructor
                  · rintro ⟨_, account, henrolled, ⟨_, hsession⟩ | ⟨_, hcode⟩⟩
                    · exact absurd hsession authorizeWithPassword_ne_session
                    · refine ⟨request, at_, account, ⟨rfl, rfl⟩,
                        hname ▸ authorizeWithPassword_code.mp hcode, ?_⟩
                      rw [hroute]
                      exact henrolled.symm
                  · rintro ⟨_, _, account, ⟨rfl, rfl⟩, hfound, hcase⟩
                    rw [hroute] at hcase
                    exact ⟨.openid, account, hcase.symm, .inr ⟨rfl,
                      authorizeWithPassword_code.mpr (hname ▸ hfound)⟩⟩

theorem login_session_some {answer : Answer}
    (h : world.console.login request world.now = .session account (some answer)) :
    ∃ enrolment, world.console.authenticator account = some enrolment ∧
      Totp.judge enrolment request.code world.now = .ok answer ∧ answer ≠ .refused := by
  unfold Console.login at h
  split at h
  · cases h
  · cases h
  · split at h
    · cases h
    · split at h
      · cases h
      · rename_i enrolment hrow
        split at h
        · cases h
        · split at h
          · cases h
          · cases h
          · rename_i hrefused hjudge
            cases h
            exact ⟨enrolment, hrow, hjudge, hrefused⟩

theorem factor_judged {limits : Limits} {move : Move} {enrolled : Bool} {answer : Answer}
    (h : .handed route account enrolled (some answer) ∈ (world.step limits move).2) :
    ∃ attempt request at_ enrolment, move = .verify attempt ∧
      world.pending attempt = some (request, .checked at_) ∧
      world.console.authenticator account = some enrolment ∧
        Totp.judge enrolment request.code world.now = .ok answer ∧ answer ≠ .refused := by
  cases move with
  | check attempt request =>
      simp only [World.step] at h
      split at h <;> cases h
  | record attempt =>
      simp only [World.step] at h
      split at h <;> cases h
  | change console => cases h
  | tick elapsed => cases h
  | ticket route principal sourceIp => cases (mem_ticket.mp h).2.2.1
  | verify attempt =>
      simp only [World.step] at h
      split at h
      · rename_i request at_ hpending
        rcases (mem_verify.mp h).2 with ⟨_, hsession⟩ | ⟨_, _, hnone⟩
        · cases hroute : request.route with
          | console =>
              rw [World.outcome, hroute] at hsession
              obtain ⟨enrolment, hrow, hjudge⟩ := login_session_some hsession
              exact ⟨attempt, request, at_, enrolment, rfl, hpending, hrow, hjudge⟩
          | openid =>
              rw [World.outcome, hroute] at hsession
              exact absurd hsession authorizeWithPassword_ne_session
        · cases hnone
      · cases h

/-- What is handed out in a sign-in is handed out for a code in that sign-in, which the authenticator of
the account accepts. -/
def World.Accepts (world : World) (move : Move) (account : Account) (factor : Option Answer) : Prop :=
  ∃ attempt request at_ enrolment answer, move = .verify attempt ∧ factor = some answer ∧
    world.pending attempt = some (request, .checked at_) ∧
      world.console.authenticator account = some enrolment ∧
        Totp.judge enrolment request.code world.now = .ok answer ∧ answer ≠ .refused

/-- Whatever a run hands out to an account with a second factor is handed out for that factor. -/
def FactorGiven (limits : Limits) (start : World) (moves : List Move) : Prop :=
  ∀ before move after, moves = before ++ move :: after → ∀ route account factor,
    let world := (Steps.run (World.step limits) start before).1
    .handed route account true factor ∈ (world.step limits move).2 → world.Accepts move account factor

theorem accepts_of_handed {limits : Limits} {move : Move} {enrolled : Bool} {answer : Answer}
    (h : .handed route account enrolled (some answer) ∈ (world.step limits move).2) :
    world.Accepts move account (some answer) := by
  obtain ⟨attempt, request, at_, enrolment, hmove, hpending, hrow, hjudge⟩ := factor_judged h
  exact ⟨attempt, request, at_, enrolment, answer, hmove, rfl, hpending, hrow, hjudge⟩

/-- Nobody gets around a second factor in a run exactly when none of its sign-ins is by a ticket or at
an application for an account that has one, or at the console for one that has only a phone. -/
theorem factorGiven_iff (limits : Limits) (start : World) (moves : List Move) :
    FactorGiven limits start moves ↔ ∀ before move after, moves = before ++ move :: after →
      ¬ (Steps.run (World.step limits) start before).1.Bypasses move := by
  constructor
  · intro hgiven before move after hmoves hbypasses
    obtain ⟨route, account, hhanded⟩ := (step_bypasses limits _ move).mpr hbypasses
    obtain ⟨_, _, _, _, _, _, hfactor, _⟩ := hgiven before move after hmoves route account none hhanded
    cases hfactor
  · intro hnone before move after hmoves route account factor world hhanded
    cases factor with
    | none =>
        have hbypasses := (step_bypasses limits world move).mp ⟨route, account, hhanded⟩
        exact absurd hbypasses (hnone before move after hmoves)
    | some answer => exact accepts_of_handed hhanded

end

def anna : Account where
  dn := "CN=anna,DC=corp,DC=lan"
  samAccountName := "anna"
  userPrincipalName := "anna@corp.lan"
  sid := some "S-1-5-21-1104"
  isDomainAdmin := true

/-- A domain with one administrator, who has an authenticator. -/
def office : World where
  console := {
    directory := {
      realm := "CORP.LAN"
      accounts := [anna]
      binds := fun _ password => password = "secret" }
    delegated := fun _ => false
    totp := Totp.anna
    phone := fun _ => false }
  attempts := []
  pending := fun _ => none
  now := 0

def usual : Limits := ⟨5, 15 * 60 * 1000000⟩

/-- A password at an application. -/
def typedPassword : Request where
  route := .openid
  username := "anna"
  password := "secret"
  sourceIp := some "10.0.0.5"

omit [Runtime] [Library] in
/-- A ticket opens a session and a password at an application gets a code, and no second factor is asked
for. -/
theorem walked_around :
    letI := Runtime.latin
    letI := Totp.Library.firstSteps
    ¬ FactorGiven usual office [.ticket .console "anna@CORP.LAN" none] ∧
      ¬ FactorGiven usual office [.check 0 typedPassword, .verify 0] := by
  let _ := Runtime.latin
  let _ := Totp.Library.firstSteps
  constructor
  · intro hgiven
    have hbypasses : office.Bypasses (.ticket .console "anna@CORP.LAN" none) :=
      ⟨anna, by decide +kernel, fun _ => rfl, by decide +kernel⟩
    obtain ⟨route, account, hhanded⟩ := (step_bypasses usual office _).mpr hbypasses
    obtain ⟨_, _, _, _, _, hmove, _⟩ := hgiven [] _ [] rfl route account none hhanded
    cases hmove
  · intro hgiven
    have hbypasses : (Steps.run (World.step usual) office [.check 0 typedPassword]).1.Bypasses (.verify 0) :=
      ⟨typedPassword, 0, anna, rfl, by decide +kernel, rfl⟩
    obtain ⟨route, account, hhanded⟩ := (step_bypasses usual _ _).mpr hbypasses
    obtain ⟨_, _, _, _, _, _, hfactor, _⟩ :=
      hgiven [.check 0 typedPassword] _ [] rfl route account none hhanded
    cases hfactor

end OpenDirectory.SignIn
