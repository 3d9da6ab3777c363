import Marmotte.Auth

/-!
# An authentication that runs alone

What `authenticate_project` returns is a function of the verification cache and
of the rows of the project and of the key; it changes nothing but the cache.
-/

namespace Marmotte

open Effects

/-- The outcome of a program that returns this result. -/
def Outcome.ofExcept : Except CoreError α → Outcome CoreError α
  | .ok value => .done value
  | .error error => .failed error

namespace AuthSvc

/-- The project credential that the rows of a database verify. -/
def verified
    (env : Env) (db : Db) (projectName apiKey : String) :
    Except CoreError ProjectAuth :=
  match Projects.getByName db projectName with
  | .error _ => .error .unauthorized
  | .ok project =>
      match ApiKeys.findActiveByLookup db project.id
          (lookupHash env apiKey) with
      | none => .error .unauthorized
      | some key =>
          match env.verifyArgon2 apiKey key.keyHash with
          | .error message => .error (.crypto message)
          | .ok false => .error .unauthorized
          | .ok true => .ok ⟨project.id, project.name, key.id, key.role⟩

/-- The rows behind a verified credential. -/
theorem verified_eq_ok
    {env : Env} {db : Db} {projectName apiKey : String} {auth : ProjectAuth}
    (accepted : verified env db projectName apiKey = .ok auth) :
    ∃ project key, Projects.getByName db projectName = .ok project ∧
      ApiKeys.findActiveByLookup db project.id (lookupHash env apiKey) =
        some key ∧
      env.verifyArgon2 apiKey key.keyHash = .ok true ∧
        auth = ⟨project.id, project.name, key.id, key.role⟩ := by
  unfold verified at accepted
  split at accepted
  · cases accepted
  · rename_i project named
    split at accepted
    · cases accepted
    · rename_i key found
      split at accepted
      · cases accepted
      · cases accepted
      · rename_i checked
        cases accepted
        exact ⟨project, key, named, found, checked, rfl⟩

/-- The project credential that the cache holds, or else the rows verify. -/
def authenticated
    (env : Env) (config : Config) (world : World)
    (projectName apiKey : String) : Except CoreError ProjectAuth :=
  match VerifyCache.get world.projectCache (projectScope projectName)
      (lookupHash env apiKey) world.instant config.auth.verifyCacheTtlSecs with
  | some auth => .ok auth
  | none => verified env world.db projectName apiKey

section Runs

variable {env : Env} {config : Config}

theorem run_verifyProject
    (projectName apiKey : String) (world : World) :
    (verifyProject env projectName apiKey (lookupHash env apiKey)).run
      (exec env config) world =
        (Outcome.ofExcept (verified env world.db projectName apiKey),
          world) := by
  unfold verifyProject verified
  cases named : Projects.getByName world.db projectName with
  | error error =>
      have missed : (transact (.projectsGetByName projectName)).run
          (exec env config) world = (.failed error, world) :=
        run_transact_error (by simp only [DbCall.exec, named]; rfl)
      rw [Program.run_bind, Program.run_catchError, missed]
      rfl
  | ok project =>
      have found : (transact (.projectsGetByName projectName)).run
          (exec env config) world = (.done project, world) :=
        run_transact (by simp only [DbCall.exec, named]; rfl)
      have searched : (transact (.apiKeysFindActive project.id
          (lookupHash env apiKey))).run (exec env config) world =
            (.done (ApiKeys.findActiveByLookup world.db project.id
              (lookupHash env apiKey)), world) :=
        run_transact rfl
      have caught : ((transact (.projectsGetByName projectName)).catchError
          fun _ => .fail .unauthorized).run (exec env config) world =
            (.done project, world) := by
        rw [Program.run_catchError, found]
      rw [Program.run_bind_done caught, Program.run_bind_done searched]
      simp only
      cases ApiKeys.findActiveByLookup world.db project.id
          (lookupHash env apiKey) with
      | none => rfl
      | some key =>
          simp only
          cases env.verifyArgon2 apiKey key.keyHash with
          | error message => rfl
          | ok accepted => cases accepted <;> rfl

/-- The authentication returns what was just defined and changes nothing but
the cache. -/
theorem run_authenticateProject
    (projectName apiKey : String) (world : World) :
    ∃ cache, (authenticateProject env projectName apiKey).run
      (exec env config) world =
        (Outcome.ofExcept
          (authenticated env config world projectName apiKey),
          { world with projectCache := cache }) := by
  have looked : exec env config (.projectCacheGet (projectScope projectName)
      (lookupHash env apiKey)) world =
        some (.ok (VerifyCache.get world.projectCache
          (projectScope projectName) (lookupHash env apiKey) world.instant
            config.auth.verifyCacheTtlSecs), world) := rfl
  unfold authenticateProject authenticated
  simp only
  rw [Program.run_bind_done (Program.run_perform looked)]
  cases hit : VerifyCache.get world.projectCache (projectScope projectName)
      (lookupHash env apiKey) world.instant config.auth.verifyCacheTtlSecs with
  | some auth => exact ⟨world.projectCache, rfl⟩
  | none =>
      have ran := @run_verifyProject env config projectName apiKey world
      simp only
      rw [Program.run_bind, ran]
      cases verified env world.db projectName apiKey with
      | error error => exact ⟨world.projectCache, rfl⟩
      | ok auth => exact ⟨_, rfl⟩

end Runs

end AuthSvc

end Marmotte
