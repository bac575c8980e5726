import PressLabz.Valkey
import PressLabz.PageCache
import PressLabz.PageCacheEffects
import PressLabz.PageCacheFreshness
import PressLabz.RowLocks
import PressLabz.RowLockLogic
import PressLabz.Forest
import PressLabz.Rows
import PressLabz.ContentTypes
import PressLabz.BuiltinTypes
import PressLabz.Database
import PressLabz.ContentsRepository
import PressLabz.ContentEffects
import PressLabz.ContentCommits
import PressLabz.ParentWalk
import PressLabz.ContentTransactions
import PressLabz.ContentSweeps
import PressLabz.PageTree
import PressLabz.PublicContents
import PressLabz.VersionHistory
import PressLabz.ContentRoutes
import PressLabz.LockOrder
import PressLabz.TranslationGroups
import PressLabz.ContentEvents
import PressLabz.Scheduler
import PressLabz.Keyset
import PressLabz.ContentListing
import PressLabz.PublicSite
import PressLabz.CanonicalUrls
import PressLabz.CacheInvalidation
import PressLabz.CacheCoverage
import PressLabz.MediaReferences
import PressLabz.MediaMirror
import PressLabz.PublicAddresses
import PressLabz.Sitemap
import PressLabz.Hreflang
import PressLabz.MediaStorage
import PressLabz.MediaUpload
import PressLabz.OrphanSweeps
import PressLabz.Admission
import PressLabz.AdmissionCalls
import PressLabz.MediaLibrary
import PressLabz.Sessions
import PressLabz.PublicationEvents
import PressLabz.RequestKeys
import PressLabz.KeyFamilies
import PressLabz.PageCacheIndex
import PressLabz.ClientIp
import PressLabz.ContentSchemas
import PressLabz.ErrorBoundary
import PressLabz.ContentPatch
import PressLabz.PublicationDates
import PressLabz.Calendar
import PressLabz.EditorDates
import PressLabz.EditorSave
import PressLabz.RevisionHistory
import PressLabz.Restore
import PressLabz.Editing
import PressLabz.SurrogatePairs
import PressLabz.BlockIds
import PressLabz.SafeHref
import PressLabz.Markup
import PressLabz.Render
import PressLabz.SearchText
import PressLabz.MarkupDocuments
import PressLabz.XmlDocuments
import PressLabz.ShownImages
import PressLabz.Slugs
import PressLabz.OldestFirst
import PressLabz.SweepProgress
import PressLabz.InitialAdministrator
import PressLabz.EventLoop
import PressLabz.HealthProbe
import PressLabz.FixedWindow
import PressLabz.RateLimits
import PressLabz.IpValue
import PressLabz.ClientIdentity
import PressLabz.HookRuns
import PressLabz.Base64
import PressLabz.CursorTexts
import PressLabz.JsonTexts
import PressLabz.PreviewTokens
import PressLabz.CacheProvider
import PressLabz.CachedSite
import PressLabz.ContentReading
import PressLabz.Authentication
import PressLabz.EditorSession
import PressLabz.SitePages
import PressLabz.ArchiveWalk
import PressLabz.Languages
import PressLabz.Interaction
import PressLabz.StorageProvisioning
import PressLabz.PreviewLinks
import PressLabz.BlockEditor
