import LibraryApi.Controllers
import LibraryApi.DueLoanNotificationJob

/-! Passwords and bearer tokens. What bcrypt and the JWT library do is taken as it is
given to the code; the code itself puts a user's id into the token, decides how long the
token lasts, and tells an expired token from an invalid one. -/
namespace LibraryApi.Security
open Models CacheService Repositories Controllers
open Program (select now)

structure Claims where
  sub : Option String
  exp : Option Int
  role : Option String
  deriving DecidableEq

/-- What the code takes from its libraries, its settings and its host. `sign` and `verified`
are `jwt.encode` and the signature check of `jwt.decode`, both under the secret of the settings. -/
structure Deployment where
  verifyPassword : (plainPassword hashedPassword : String) → Bool
  sign : Claims → String
  verified : String → Option Claims
  jwtExpireMinutes : Int
  zone : DueLoanNotificationJob.UtcOffset

def roleValue : UserRole → String
  | .user => "USER"
  | .admin => "ADMIN"

/- An instant within a second counts as the start of the second. -/
def createAccessToken (s : Deployment) (userId : String) (role : UserRole) : Service String := do
  let t ← now
  let expire := t + s.jwtExpireMinutes * 60000000
  return s.sign ⟨some userId,some (expire / 1000000),some (roleValue role)⟩

/- A token without `exp` does not expire. -/
def claimed (claims : Claims) (t : Int) : Token :=
  if claims.exp.any (fun e => decide (e * 1000000 ≤ t)) then .expired else .payload claims.sub claims.role

def decodeToken (s : Deployment) (token : String) : Service Token := do
  match s.verified token with
  | none => return .invalid
  | some claims =>
    let t ← now
    return claimed claims t

structure LoginSchema where
  email : String
  password : String
  deriving DecidableEq

/- An unknown e-mail and a wrong password are answered alike. -/
def login (s : Deployment) (data : LoginSchema) : Service String := do
  let user ← require (.businessRule "Credenciais inválidas")
    (← scalarOneOrNone (← select fun d => UserRepository.findByEmail d data.email))
  let validPassword := s.verifyPassword data.password user.password
  refuse (validPassword = false) (.businessRule "Credenciais inválidas")
  createAccessToken s user.id.text user.role

end LibraryApi.Security
