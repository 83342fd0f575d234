import LibraryApi.Repositories

/-! Users. The e-mail lookup of `create_user` sees active users only, the unique
constraint of the table all of them. -/
namespace LibraryApi.UserService
open Models CacheService Repositories
open Program (select write commit now)

structure CreateUserSchema where
  name : String
  email : String
  password : String
  deriving DecidableEq

def createUser (data : CreateUserSchema) : Service UserModel := do
  let existing ← scalarOneOrNone (← select fun d => UserRepository.findByEmail d data.email)
  refuse (existing.isSome) (.businessRule "E-mail já cadastrado")
  let password ← hashPassword data.password
  let id ← newUuid
  let createdAt ← now
  let user : UserModel := ⟨id,data.name,data.email,password,createdAt,true,.user⟩
  write (.insertUser user)
  commit
  select fun d => (d.users.find id.text).getD user

def getById (userId : String) : Service UserModel := do
  require (.notFound "Usuário não encontrado") (← select fun d => UserRepository.findById d userId)

def renamed (user : UserModel) (name : Option String) : UserModel := match name with
  | none => user
  | some s => if s.isEmpty then user else {user with name := s}

def updateUser (userId : String) (name : Option String) : Service UserModel := do
  let user ← getById userId
  UserRepository.update user (renamed user name)

def updateRole (userId : String) (role : UserRole) : Service UserModel := do
  let user ← getById userId
  UserRepository.update user {user with role := role}

def deleteUser (userId : String) : Service Unit := do
  let user ← getById userId
  let _ ← UserRepository.update user {user with isActive := false}
  return ()

def listUsersPaginated (p : Pagination) : Service (Page UserModel) := do
  let (users,total) ← UserRepository.listUsersPaginated p
  return ⟨users,total,p.page,p.size⟩

end LibraryApi.UserService
