import LibraryApi.Repositories

/-! Authors. Deleting one deactivates every active book of the author in the same
transaction. Field names a PATCH carries are kept apart from their values: an
absent biography stays, a null one is stored. -/
namespace LibraryApi.AuthorService
open Models CacheService Repositories
open Program (select write commit now)

structure CreateAuthorSchema where
  name : String
  biography : Option String
  deriving DecidableEq

structure UpdateAuthorSchema where
  name : Option (Option String)
  biography : Option (Option String)
  deriving DecidableEq

def createAuthor (data : CreateAuthorSchema) : Service AuthorModel := do
  let id ← newUuid
  let createdAt ← now
  let author : AuthorModel := ⟨id,data.name,data.biography,createdAt,true⟩
  write (.insertAuthor author)
  commit
  select fun d => (d.authors.find id.text).getD author

def getAuthor (authorId : String) : Service AuthorModel := do
  require (.notFound "Autor não encontrado") (← select fun d => AuthorRepository.findById d authorId)

def listAuthorsPaginated (p : Pagination) : Service (Page AuthorModel) := do
  let (authors,total) ← AuthorRepository.listAuthorsPaginated p
  return ⟨authors,total,p.page,p.size⟩

def forgetBooks : Service Unit := do
  deletePattern "book:*"
  deletePattern "books:list*"

def deleteAuthor (authorId : String) : Service Unit := do
  let (author,books) ← require (.notFound "Autor não encontrado")
    (← select fun d => AuthorRepository.findByIdWithBooks d authorId)
  AuthorRepository.softDelete author books
  forgetBooks

def updated (author : AuthorModel) (data : UpdateAuthorSchema) : AuthorModel :=
  {author with
    name := match data.name with
      | some (some s) => if s.isEmpty then author.name else s
      | _ => author.name
    biography := data.biography.getD author.biography}

def updateAuthor (authorId : String) (data : UpdateAuthorSchema) : Service AuthorModel := do
  let author ← require (.notFound "Autor não encontrado")
    (← select fun d => AuthorRepository.findById d authorId)
  let updatedAuthor ← AuthorRepository.update author (updated author data)
  forgetBooks
  return updatedAuthor

end LibraryApi.AuthorService
