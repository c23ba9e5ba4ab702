import EmeraldExchange.Auth.Csrf
import EmeraldExchange.Auth.Pairing
import EmeraldExchange.Auth.RateLimit
import EmeraldExchange.Auth.Revocations
import EmeraldExchange.Contracts.SubMigration
import EmeraldExchange.Contracts.Telemetry
import EmeraldExchange.Contracts.TimeWindow
import EmeraldExchange.Gateway.Grabs
import EmeraldExchange.Gateway.PathState
import EmeraldExchange.Gateway.RadarrEnds
import EmeraldExchange.Gateway.RatingGate
import EmeraldExchange.Gateway.SingleFlight
import EmeraldExchange.Gateway.StoreReload
import EmeraldExchange.Gateway.SuggestionStrip
import EmeraldExchange.Gateway.Syncplay
import EmeraldExchange.Gateway.TitleForms
import EmeraldExchange.Gateway.TvPlan
import EmeraldExchange.Gateway.UriComponent
import EmeraldExchange.Gateway.Usage
import EmeraldExchange.Gateway.Veto
import EmeraldExchange.Gateway.WatchSignal
import EmeraldExchange.Iptv.CatalogSync
import EmeraldExchange.Iptv.DvrSchedule
import EmeraldExchange.Iptv.DvrStatus
import EmeraldExchange.Iptv.FeedSweep
import EmeraldExchange.Iptv.GuideRefresh
import EmeraldExchange.Iptv.Hls
import EmeraldExchange.Iptv.PublicBaseUrl
import EmeraldExchange.Iptv.RemuxChildren
import EmeraldExchange.Iptv.RemuxDiscontinuity
import EmeraldExchange.Iptv.Reservations
import EmeraldExchange.Iptv.SegmentNames
import EmeraldExchange.Iptv.Upstream
import EmeraldExchange.Iptv.XmltvStream
import EmeraldExchange.MediaCore.ExifTime
import EmeraldExchange.MediaCore.FileLibraries
import EmeraldExchange.MediaCore.MergeShows
import EmeraldExchange.MediaCore.Migrate
import EmeraldExchange.MediaCore.Playlists
import EmeraldExchange.MediaCore.PodcastEpisodes
import EmeraldExchange.MediaCore.RateLimit
import EmeraldExchange.MediaCore.Rescan
import EmeraldExchange.MediaCore.ShowKeys
import EmeraldExchange.MediaCore.SsrfGuard
import EmeraldExchange.MediaCore.Webp
import EmeraldExchange.Recommender.Auc
import EmeraldExchange.Recommender.Caches
import EmeraldExchange.Recommender.Changes
import EmeraldExchange.Recommender.Exclusion
import EmeraldExchange.Recommender.Features
import EmeraldExchange.Recommender.KidsCap
import EmeraldExchange.Recommender.Logistic
import EmeraldExchange.Recommender.Mmr
import EmeraldExchange.Recommender.Overfetch
import EmeraldExchange.Recommender.Persist
import EmeraldExchange.Recommender.Proposal
import EmeraldExchange.Recommender.ReplayEval
import EmeraldExchange.Recommender.Rng
import EmeraldExchange.Recommender.Slate
import EmeraldExchange.Recommender.VecRowid
import EmeraldExchange.Transcoder.Backfill
import EmeraldExchange.Transcoder.Coalesce
import EmeraldExchange.Transcoder.GridKeeping
import EmeraldExchange.Transcoder.Limiter
import EmeraldExchange.Transcoder.MasterPlaylist
import EmeraldExchange.Transcoder.MediaRoots
import EmeraldExchange.Transcoder.Plan
import EmeraldExchange.Transcoder.SeekLanding
import EmeraldExchange.Transcoder.VodTiling
